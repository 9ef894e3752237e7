import Arveil.Spec.Pairing

/-! How many rendezvous are live, and what a slot holds, whatever the order in which requests
make their statements. The count that lets a request create a rendezvous is taken before the
insert, so the bound is kept by who was let through and has not inserted; a slot is kept by
its primary key. -/

namespace Arveil.Rendezvous

open Prog

section stages

variable (sha256 : Bytes → Bytes)

def inserts (id capability : Bytes) (ttl now : Int) : Handles Reply :=
  insertsPair sha256 id capability now ttl >>= fun r => pure (.begun r)

def readsFirst (id : Bytes) (slot : String) (data : Bytes) : Handles Reply :=
  (do
    match (← ask (.slotData id slot)) with
    | .error e => pure (.error e)
    | .ok (some existing) => pure (if existing = data then .ok () else .error .taken)
    | .ok none => ask (.insertSlot ⟨id, slot, data⟩)) >>= fun r => pure (.put r)

def writes (id : Bytes) (slot : String) (data : Bytes) : Handles Reply :=
  ask (.insertSlot ⟨id, slot, data⟩) >>= fun r => pure (.put r)

def reads (id : Bytes) (slot : String) : Handles Reply := ask (.slotData id slot) >>= fun r => pure (.got r)

/-- The statement a request that came in at `t` makes next, on `p`, and what comes of it. -/
inductive Makes (t : Int) (p : Pairs) : Request → Handles Reply → Handles Reply → Pairs → Prop
  | busy {id capability : Bytes} {ttl : Int} (h : maxOpenRendezvous ≤ (p.rendezvous.rows.filter fun r => unix t < r.expiresAt).length) :
      Makes t p (.beginPair id capability ttl) ((Request.beginPair id capability ttl).handler sha256 t)
        (pure (.begun (.error .busy))) p
  | letThrough {id capability : Bytes} {ttl : Int} (h : (p.rendezvous.rows.filter fun r => unix t < r.expiresAt).length < maxOpenRendezvous) :
      Makes t p (.beginPair id capability ttl) ((Request.beginPair id capability ttl).handler sha256 t) (inserts sha256 id capability ttl t) p
  | begins {id capability : Bytes} {ttl : Int} {p' : Pairs} (h : addPair ⟨id, sha256 capability, unix (t + ttl)⟩ p = some p') :
      Makes t p (.beginPair id capability ttl) (inserts sha256 id capability ttl t) (pure (.begun (.ok (id, capability, unix (t + ttl))))) p'
  | beginFails {id capability : Bytes} {ttl : Int} (h : addPair ⟨id, sha256 capability, unix (t + ttl)⟩ p = none) :
      Makes t p (.beginPair id capability ttl) (inserts sha256 id capability ttl t) (pure (.begun (.error .sqlite))) p
  | putOpen {id capability : Bytes} {slot : String} {data : Bytes} (hs : validSlot slot = true)
      (h : isOpen id (sha256 capability) (unix t) p = true) :
      Makes t p (.putPair id capability slot data) ((Request.putPair id capability slot data).handler sha256 t) (readsFirst id slot data) p
  | putUnknown {id capability : Bytes} {slot : String} {data : Bytes} (h : isOpen id (sha256 capability) (unix t) p = false) :
      Makes t p (.putPair id capability slot data) ((Request.putPair id capability slot data).handler sha256 t)
        (pure (.put (.error .unknown))) p
  | putFound {id capability : Bytes} {slot : String} {data : Bytes} {row : SlotRow} (hs : validSlot slot = true) (h : p.slots.get? (id, slot) = some row) :
      Makes t p (.putPair id capability slot data) (readsFirst id slot data)
        (pure (.put (if row.data = data then .ok () else .error .taken))) p
  | putEmpty {id capability : Bytes} {slot : String} {data : Bytes} (hs : validSlot slot = true) (h : p.slots.get? (id, slot) = none) :
      Makes t p (.putPair id capability slot data) (readsFirst id slot data) (writes id slot data) p
  | putWrites {id capability : Bytes} {slot : String} {data : Bytes} {p' : Pairs} (hs : validSlot slot = true) (h : addSlot ⟨id, slot, data⟩ p = some p') :
      Makes t p (.putPair id capability slot data) (writes id slot data) (pure (.put (.ok ()))) p'
  | putLate {id capability : Bytes} {slot : String} {data : Bytes} (h : addSlot ⟨id, slot, data⟩ p = none) :
      Makes t p (.putPair id capability slot data) (writes id slot data) (pure (.put (.error .sqlite))) p
  | getOpen {id capability : Bytes} {slot : String} (h : isOpen id (sha256 capability) (unix t) p = true) :
      Makes t p (.getPair id capability slot) ((Request.getPair id capability slot).handler sha256 t) (reads id slot) p
  | getUnknown {id capability : Bytes} {slot : String} (h : isOpen id (sha256 capability) (unix t) p = false) :
      Makes t p (.getPair id capability slot) ((Request.getPair id capability slot).handler sha256 t) (pure (.got (.error .unknown))) p
  | getReads {id capability : Bytes} {slot : String} :
      Makes t p (.getPair id capability slot) (reads id slot) (pure (.got (.ok ((p.slots.get? (id, slot)).map (·.data))))) p

/-- Where a request that came in at `t` can be. -/
inductive Stage (t : Int) : Request → Handles Reply → Prop
  | counts {id capability : Bytes} {ttl : Int} :
      Stage t (.beginPair id capability ttl) ((Request.beginPair id capability ttl).handler sha256 t)
  | inserts {id capability : Bytes} {ttl : Int} : Stage t (.beginPair id capability ttl) (inserts sha256 id capability ttl t)
  | checksPut {id capability : Bytes} {slot : String} {data : Bytes} (hs : validSlot slot = true)
      (hd : ¬ (data.length = 0 ∨ maxPairData < data.length)) :
      Stage t (.putPair id capability slot data) ((Request.putPair id capability slot data).handler sha256 t)
  | readsFirst {id capability : Bytes} {slot : String} {data : Bytes} (hs : validSlot slot = true) :
      Stage t (.putPair id capability slot data) (readsFirst id slot data)
  | writes {id capability : Bytes} {slot : String} {data : Bytes} (hs : validSlot slot = true) :
      Stage t (.putPair id capability slot data) (writes id slot data)
  | checksGet {id capability : Bytes} {slot : String} (hs : validSlot slot = true) :
      Stage t (.getPair id capability slot) ((Request.getPair id capability slot).handler sha256 t)
  | reads {id capability : Bytes} {slot : String} : Stage t (.getPair id capability slot) (reads id slot)
  | done {r : Request} {a : Reply} : Stage t r (pure a)

end stages

variable {sha256 : Bytes → Bytes}

theorem stage_call (r : Request) (t : Int) : Stage sha256 t r (r.handler sha256 t) := by
  cases r with
  | beginPair id capability ttl => exact .counts
  | putPair id capability slot data =>
    by_cases hs : validSlot slot = false
    · have hdone : (Request.putPair id capability slot data).handler sha256 t = pure (.put (.error .slot)) := by
        simp only [Request.handler, putPair, if_pos hs]
        rfl
      rw [hdone]
      exact .done
    · by_cases hd : data.length = 0 ∨ maxPairData < data.length
      · have hdone : (Request.putPair id capability slot data).handler sha256 t = pure (.put (.error .size)) := by
          simp only [Request.handler, putPair, if_neg hs, if_pos hd]
          rfl
        rw [hdone]
        exact .done
      · exact .checksPut (by simpa using hs) hd
  | getPair id capability slot =>
    by_cases hs : validSlot slot = false
    · have hdone : (Request.getPair id capability slot).handler sha256 t = pure (.got (.error .slot)) := by
        simp only [Request.handler, getPair, if_pos hs]
        rfl
      rw [hdone]
      exact .done
    · exact .checksGet (by simpa using hs)

theorem step_ask {α : Type} (c : Call) (f : Except PairError c.Result → Handles α) (p : Pairs) :
    (ask c >>= f).step p = (f (c.prog p).1, (c.prog p).2) := rfl

theorem step_ask_bind {α β : Type} (c : Call) (f : Except PairError c.Result → Handles α) (g : α → Handles β) (p : Pairs) :
    ((ask c >>= f) >>= g).step p = (f (c.prog p).1 >>= g, (c.prog p).2) := rfl

theorem insertInto_some {ρ : Type} {f : ρ → Pairs → Option Pairs} {row : ρ} {p p' : Pairs} (h : f row p = some p') :
    insertInto f row p = (.ok (), p') := by
  simp [insertInto, tryModify, h]

theorem insertInto_none {ρ : Type} {f : ρ → Pairs → Option Pairs} {row : ρ} {p : Pairs} (h : f row p = none) :
    insertInto f row p = (.error .sqlite, p) := by
  simp [insertInto, tryModify, h]

theorem stage_step {t : Int} {r : Request} {h : Handles Reply} (hs : Stage sha256 t r h) (p : Pairs) :
    (∃ a, h = pure a) ∨ Makes sha256 t p r h (h.step p).1 (h.step p).2 := by
  cases hs with
  | done => exact Or.inl ⟨_, rfl⟩
  | @counts id capability ttl =>
    right
    have hstep : ((Request.beginPair id capability ttl).handler sha256 t).step p =
        ((if maxOpenRendezvous ≤ (p.rendezvous.rows.filter fun r => unix t < r.expiresAt).length then pure (.error .busy)
          else insertsPair sha256 id capability t ttl) >>= fun r => pure (.begun r), p) := rfl
    rw [hstep]
    by_cases hn : maxOpenRendezvous ≤ (p.rendezvous.rows.filter fun r => unix t < r.expiresAt).length
    · rw [if_pos hn]
      exact .busy hn
    · rw [if_neg hn]
      exact .letThrough (not_le.1 hn)
  | @inserts id capability ttl =>
    right
    cases hadd : addPair ⟨id, sha256 capability, unix (t + ttl)⟩ p with
    | some p' =>
      have hrun : (Call.insertPair ⟨id, sha256 capability, unix (t + ttl)⟩).prog p = (.ok (), p') := insertInto_some hadd
      have hstep : (inserts sha256 id capability ttl t).step p = (pure (.begun (.ok (id, capability, unix (t + ttl)))), p') := by
        rw [inserts, insertsPair, step_ask_bind, hrun]
        rfl
      rw [hstep]
      exact .begins hadd
    | none =>
      have hrun : (Call.insertPair ⟨id, sha256 capability, unix (t + ttl)⟩).prog p = (.error .sqlite, p) := insertInto_none hadd
      have hstep : (inserts sha256 id capability ttl t).step p = (pure (.begun (.error .sqlite)), p) := by
        rw [inserts, insertsPair, step_ask_bind, hrun]
        rfl
      rw [hstep]
      exact .beginFails hadd
  | @checksPut id capability slot data hs hd =>
    right
    have hrun : (Call.pairExists id (sha256 capability) (unix t)).prog p = (.ok (isOpen id (sha256 capability) (unix t) p), p) := rfl
    cases hopen : isOpen id (sha256 capability) (unix t) p with
    | true =>
      have hstep : ((Request.putPair id capability slot data).handler sha256 t).step p = (readsFirst id slot data, p) := by
        rw [Request.handler, putPair, if_neg (by simp [hs]), if_neg hd, step_ask_bind, hrun, hopen]
        rfl
      rw [hstep]
      exact .putOpen hs hopen
    | false =>
      have hstep : ((Request.putPair id capability slot data).handler sha256 t).step p = (pure (.put (.error .unknown)), p) := by
        rw [Request.handler, putPair, if_neg (by simp [hs]), if_neg hd, step_ask_bind, hrun, hopen]
        rfl
      rw [hstep]
      exact .putUnknown hopen
  | @readsFirst id capability slot data hs =>
    right
    have hrun : (Call.slotData id slot).prog p = (.ok ((p.slots.get? (id, slot)).map (·.data)), p) := rfl
    cases hget : p.slots.get? (id, slot) with
    | some row =>
      have hstep : (readsFirst id slot data).step p = (pure (.put (if row.data = data then .ok () else .error .taken)), p) := by
        rw [readsFirst, step_ask_bind, hrun, hget]
        rfl
      rw [hstep]
      exact .putFound hs hget
    | none =>
      have hstep : (readsFirst id slot data).step p = (writes id slot data, p) := by
        rw [readsFirst, step_ask_bind, hrun, hget]
        rfl
      rw [hstep]
      exact .putEmpty hs hget
  | @writes id capability slot data hs =>
    right
    cases hadd : addSlot ⟨id, slot, data⟩ p with
    | some p' =>
      have hrun : (Call.insertSlot ⟨id, slot, data⟩).prog p = (.ok (), p') := insertInto_some hadd
      have hstep : (writes id slot data).step p = (pure (.put (.ok ())), p') := by
        rw [writes, step_ask, hrun]
      rw [hstep]
      exact .putWrites hs hadd
    | none =>
      have hrun : (Call.insertSlot ⟨id, slot, data⟩).prog p = (.error .sqlite, p) := insertInto_none hadd
      have hstep : (writes id slot data).step p = (pure (.put (.error .sqlite)), p) := by
        rw [writes, step_ask, hrun]
      rw [hstep]
      exact .putLate hadd
  | @checksGet id capability slot hs =>
    right
    have hrun : (Call.pairExists id (sha256 capability) (unix t)).prog p = (.ok (isOpen id (sha256 capability) (unix t) p), p) := rfl
    cases hopen : isOpen id (sha256 capability) (unix t) p with
    | true =>
      have hstep : ((Request.getPair id capability slot).handler sha256 t).step p = (reads id slot, p) := by
        rw [Request.handler, getPair, if_neg (by simp [hs]), step_ask_bind, hrun, hopen]
        rfl
      rw [hstep]
      exact .getOpen hopen
    | false =>
      have hstep : ((Request.getPair id capability slot).handler sha256 t).step p = (pure (.got (.error .unknown)), p) := by
        rw [Request.handler, getPair, if_neg (by simp [hs]), step_ask_bind, hrun, hopen]
        rfl
      rw [hstep]
      exact .getUnknown hopen
  | @reads id capability slot =>
    right
    have hstep : (reads id slot).step p = (pure (.got (.ok ((p.slots.get? (id, slot)).map (·.data)))), p) := rfl
    rw [hstep]
    exact .getReads

theorem Makes.stage {t : Int} {p p' : Pairs} {r : Request} {h h' : Handles Reply} (hm : Makes sha256 t p r h h' p') : Stage sha256 t r h' := by
  cases hm with
  | letThrough => exact .inserts
  | putOpen hs => exact .readsFirst hs
  | putEmpty hs => exact .writes hs
  | getOpen => exact .reads
  | _ => exact .done

/-- Every request is somewhere in its course, and came in before now. -/
def Staged (sha256 : Bytes → Bytes) (w : World) : Prop :=
  ∀ r ∈ w.running, Stage sha256 r.started r.request r.handler ∧ r.started ≤ w.clock

theorem step_cases {w : World} (hw : Staged sha256 w) (i : Nat) :
    w.step sha256 (.step i) = w ∨ ∃ r h' p', w.running[i]? = some r ∧ Makes sha256 r.started w.pairs r.request r.handler h' p' ∧
      w.step sha256 (.step i) = { w with pairs := p', running := w.running.set i { r with handler := h' } } := by
  cases hr : w.running[i]? with
  | none =>
    left
    simp [World.step, hr]
  | some r =>
    have hstep : w.step sha256 (.step i) =
        { w with pairs := (r.handler.step w.pairs).2, running := w.running.set i { r with handler := (r.handler.step w.pairs).1 } } := by
      simp [World.step, hr]
    rcases stage_step (hw r (List.mem_of_getElem? hr)).1 w.pairs with ⟨a, ha⟩ | hm
    · left
      have hsame : (⟨r.request, r.started, pure a⟩ : Running) = r := by rw [← ha]
      have hset : w.running.set i r = w.running := by
        obtain ⟨hlt, hget⟩ := List.getElem?_eq_some_iff.1 hr
        rw [← hget]
        exact List.set_getElem_self hlt
      have hdone : r.handler.step w.pairs = (pure a, w.pairs) := by
        rw [ha]
        rfl
      rw [hstep, hdone]
      dsimp only
      rw [hsame, hset]
    · exact Or.inr ⟨r, _, _, rfl, hm, hstep⟩

theorem staged_step {w : World} (hw : Staged sha256 w) (e : Event) : Staged sha256 (w.step sha256 e) := by
  cases e with
  | call r =>
    intro r' hr'
    rcases List.mem_append.1 hr' with hr' | hr'
    · exact hw r' hr'
    · obtain rfl := List.mem_singleton.1 hr'
      exact ⟨stage_call r w.clock, le_rfl⟩
  | step i =>
    rcases step_cases hw i with hsame | ⟨r, h', p', hr, hm, hstep⟩
    · rw [hsame]
      exact hw
    · rw [hstep]
      intro r' hr'
      rcases List.mem_or_eq_of_mem_set hr' with hr' | rfl
      · exact hw r' hr'
      · exact ⟨hm.stage, (hw r (List.mem_of_getElem? hr)).2⟩
  | sweep => exact hw
  | tick d => exact fun r hr => ⟨(hw r hr).1, le_trans (hw r hr).2 (Int.le_add_of_nonneg_right (Int.natCast_nonneg d))⟩

/-- A request that was let through and is about to insert a rendezvous that is still to
expire. -/
def awaits (now : Int) (r : Running) : Bool :=
  match (r.handler.next : Option Call) with
  | some (.insertPair row) => now < row.expiresAt
  | _ => false

def World.inflight (w : World) : Nat := w.running.countP (awaits (unix w.clock))

/-- A request is let through only if, with those already let through, the bound is not
reached. -/
def World.letsThrough (w : World) : Event → Bool
  | .step i =>
      match w.running[i]? with
      | none => true
      | some r =>
          match (r.handler.next : Option Call) with
          | some (.countOpen now) =>
              decide (maxOpenRendezvous ≤ (w.pairs.rendezvous.rows.filter fun row => now < row.expiresAt).length) ||
                decide (w.live + w.inflight < maxOpenRendezvous)
          | _ => true
  | _ => true

def Bounded (w : World) : Prop := w.live + w.inflight ≤ maxOpenRendezvous

theorem unix_mono {t t' : Int} (h : t ≤ t') : unix t ≤ unix t' := Int.ediv_le_ediv (by decide) h

theorem inflight_set {w : World} {i : Nat} {r r' : Running} (hr : w.running[i]? = some r) (now : Int) :
    (w.running.set i r').countP (awaits now) + (if awaits now r then 1 else 0) =
      w.running.countP (awaits now) + if awaits now r' then 1 else 0 := by
  obtain ⟨hlt, hget⟩ := List.getElem?_eq_some_iff.1 hr
  rw [List.countP_set hlt, hget]
  by_cases ha : awaits now r = true
  · have hpos : 0 < w.running.countP (awaits now) := List.countP_pos_iff.2 ⟨r, List.mem_of_getElem? hr, ha⟩
    simp only [ha, if_true]
    omega
  · simp only [ha]
    simp

theorem addPair_some {row : PairRow} {p p' : Pairs} (h : addPair row p = some p') :
    p'.rendezvous.rows = p.rendezvous.rows ++ [row] ∧ p'.slots = p.slots ∧ ∀ r ∈ p.rendezvous, r.pairId ≠ row.pairId := by
  obtain ⟨t, ht, rfl⟩ := Option.map_eq_some_iff.1 h
  exact ⟨(Table.insert_eq_some ht).1, rfl, (Table.insert_eq_some ht).2⟩

theorem addSlot_some {row : SlotRow} {p p' : Pairs} (h : addSlot row p = some p') :
    p'.rendezvous = p.rendezvous ∧ p.slots.insert row = some p'.slots := by
  unfold addSlot at h
  split at h
  · cases h
  · obtain ⟨t, ht, rfl⟩ := Option.map_eq_some_iff.1 h
    exact ⟨rfl, ht⟩

theorem bounded_aside {w : World} {i : Nat} {r : Running} {h' : Handles Reply} {p' : Pairs} (hr : w.running[i]? = some r)
    (hp : p'.rendezvous = w.pairs.rendezvous) (hnone : ∀ now, awaits now { r with handler := h' } = false) (hb : Bounded w) :
    Bounded { w with pairs := p', running := w.running.set i { r with handler := h' } } := by
  have hset := @inflight_set w i r { r with handler := h' } hr (unix w.clock)
  rw [hnone] at hset
  simp only [Bounded, World.live, World.inflight, hp] at hb ⊢
  simp only [Bool.false_eq_true, if_false] at hset
  omega

theorem bounded_statement {w : World} {i : Nat} {r : Running} {h' : Handles Reply} {p' : Pairs} (hr : w.running[i]? = some r)
    (hm : Makes sha256 r.started w.pairs r.request r.handler h' p') (hc : w.letsThrough (.step i) = true) (hb : Bounded w) :
    Bounded { w with pairs := p', running := w.running.set i { r with handler := h' } } := by
  obtain ⟨request, started, handler⟩ := r
  have hset := fun r' => @inflight_set w i ⟨request, started, handler⟩ r' hr (unix w.clock)
  dsimp only at hm
  cases hm with
  | @letThrough id capability ttl hcount =>
    have hroom : w.live + w.inflight < maxOpenRendezvous := by
      dsimp only [World.letsThrough] at hc
      rw [hr] at hc
      rcases Bool.or_eq_true_iff.1 hc with hbusy | hroom
      · exact absurd (of_decide_eq_true hbusy) (not_le.2 hcount)
      · exact of_decide_eq_true hroom
    have hone := hset ⟨.beginPair id capability ttl, started, inserts sha256 id capability ttl started⟩
    have hle : (if awaits (unix w.clock) ⟨.beginPair id capability ttl, started, inserts sha256 id capability ttl started⟩ = true then 1 else 0) ≤ 1 := by
      split <;> decide
    simp only [Bounded, World.live, World.inflight] at hroom ⊢
    omega
  | @begins id capability ttl p' hadd =>
    obtain ⟨hrows, -, -⟩ := addPair_some hadd
    have hone := hset ⟨.beginPair id capability ttl, started, pure (.begun (.ok (id, capability, unix (started + ttl))))⟩
    have hawaits : awaits (unix w.clock) ⟨.beginPair id capability ttl, started, inserts sha256 id capability ttl started⟩ =
      decide (unix w.clock < unix (started + ttl)) := rfl
    have hnone : awaits (unix w.clock) ⟨.beginPair id capability ttl, started, pure (.begun (.ok (id, capability, unix (started + ttl))))⟩ =
      false := rfl
    rw [hawaits, hnone] at hone
    simp only [Bounded, World.live, World.inflight, hrows, List.filter_append, List.length_append, List.filter_cons, List.filter_nil] at hb ⊢
    split
    · next hlive =>
      rw [if_pos hlive] at hone
      simp only [List.length_singleton, Bool.false_eq_true, if_false] at hone ⊢
      omega
    · next hdead =>
      rw [if_neg hdead] at hone
      simp only [List.length_nil, Bool.false_eq_true, if_false] at hone ⊢
      omega
  | putWrites hs hadd => exact bounded_aside hr (addSlot_some hadd).1 (fun _ => rfl) hb
  | _ => exact bounded_aside hr rfl (fun _ => rfl) hb

theorem awaits_call (r : Request) (now t : Int) : awaits now ⟨r, t, r.handler sha256 t⟩ = false := by
  cases r with
  | beginPair id capability ttl => rfl
  | putPair id capability slot data =>
    rw [Request.handler, putPair]
    by_cases hs : validSlot slot = false
    · rw [if_pos hs]
      rfl
    · rw [if_neg hs]
      by_cases hd : data.length = 0 ∨ maxPairData < data.length
      · rw [if_pos hd]
        rfl
      · rw [if_neg hd]
        rfl
  | getPair id capability slot =>
    rw [Request.handler, getPair]
    by_cases hs : validSlot slot = false
    · rw [if_pos hs]
      rfl
    · rw [if_neg hs]
      rfl

theorem bounded_step {w : World} (hw : Staged sha256 w) {e : Event} (hc : w.letsThrough e = true) (hb : Bounded w) :
    Bounded (w.step sha256 e) := by
  cases e with
  | call r =>
    have hnone := @awaits_call sha256 r (unix w.clock) w.clock
    simp only [Bounded, World.live, World.inflight, World.step, List.countP_append, List.countP_singleton, hnone] at hb ⊢
    exact hb
  | step i =>
    rcases step_cases hw i with hsame | ⟨r, h', p', hr, hm, hstep⟩
    · rw [hsame]
      exact hb
    · rw [hstep]
      exact bounded_statement hr hm hc hb
  | sweep =>
    have hlive : (World.step sha256 w .sweep).live = w.live := by
      simp only [World.live, World.step, sweepPairs, Table.delete, List.filter_filter]
      congr 1
      refine List.filter_congr fun r _ => ?_
      by_cases hr : unix w.clock < r.expiresAt
      · simp [hr]
      · simp [hr]
    show (World.step sha256 w .sweep).live + w.inflight ≤ maxOpenRendezvous
    rw [hlive]
    exact hb
  | tick d =>
    have hclock : unix w.clock ≤ unix (w.clock + d) := unix_mono (Int.le_add_of_nonneg_right (Int.natCast_nonneg d))
    have hlive : (World.step sha256 w (.tick d)).live ≤ w.live := by
      refine (List.monotone_filter_right _ fun r hr => ?_).length_le
      exact decide_eq_true (lt_of_le_of_lt hclock (of_decide_eq_true hr))
    have hinflight : (World.step sha256 w (.tick d)).inflight ≤ w.inflight := by
      refine List.countP_mono_left fun r _ hr => ?_
      unfold awaits at hr ⊢
      split at hr
      · exact decide_eq_true (lt_of_le_of_lt hclock (of_decide_eq_true hr))
      · cases hr
    exact le_trans (Nat.add_le_add hlive hinflight) hb

def Rooted (p : Pairs) : Prop := ∀ s ∈ p.slots, ∃ r ∈ p.rendezvous, r.pairId = s.pairId

theorem Makes.grows {t : Int} {p p' : Pairs} {r : Request} {h h' : Handles Reply} (hm : Makes sha256 t p r h h' p') :
    (∀ r ∈ p.rendezvous, r ∈ p'.rendezvous) ∧ (∀ s ∈ p.slots, s ∈ p'.slots) ∧ (Rooted p → Rooted p') := by
  cases hm with
  | begins hadd =>
    obtain ⟨hrows, hslots, -⟩ := addPair_some hadd
    have hmem : ∀ r ∈ p.rendezvous, r ∈ p'.rendezvous := by
      intro r hr
      rw [Table.mem_def, hrows]
      exact List.mem_append_left _ hr
    refine ⟨hmem, fun s hs => hslots ▸ hs, fun hroot s hs => ?_⟩
    obtain ⟨r, hr, hid⟩ := hroot s (hslots ▸ hs)
    exact ⟨r, hmem r hr, hid⟩
  | putWrites hs hadd =>
    obtain ⟨hpairs, hins⟩ := addSlot_some hadd
    refine ⟨fun r hr => hpairs ▸ hr, fun s hs => (Table.mem_insert hins).2 (Or.inl hs), fun hroot s hs => ?_⟩
    rw [hpairs]
    rcases (Table.mem_insert hins).1 hs with hs | rfl
    · exact hroot s hs
    · unfold addSlot at hadd
      split at hadd
      · cases hadd
      · next hsome =>
        rw [Bool.not_eq_true, Option.isNone_eq_false_iff, Option.isSome_iff_exists] at hsome
        obtain ⟨r, hr⟩ := hsome
        exact ⟨r, (Table.get?_eq_some.1 hr).1, (Table.get?_eq_some.1 hr).2⟩
  | _ => exact ⟨fun _ hr => hr, fun _ hs => hs, fun hroot => hroot⟩

def Sweeps (id : Bytes) (w : World) (e : Event) : Prop := e = .sweep ∧ ∃ r ∈ w.pairs.rendezvous, r.pairId = id ∧ r.expiresAt ≤ unix w.clock

/-- Until its rendezvous is swept, a slot holds what it holds. -/
theorem slot_step {w : World} (hw : Staged sha256 w) {s : SlotRow} (hs : s ∈ w.pairs.slots) {e : Event} (he : ¬ Sweeps s.pairId w e) :
    s ∈ (w.step sha256 e).pairs.slots := by
  cases e with
  | call r => exact hs
  | tick d => exact hs
  | step i =>
    rcases step_cases hw i with hsame | ⟨r, h', p', hr, hm, hstep⟩
    · rw [hsame]
      exact hs
    · rw [hstep]
      exact hm.grows.2.1 s hs
  | sweep =>
    refine Table.mem_delete.2 ⟨hs, ?_⟩
    rw [Bool.eq_false_iff]
    intro hany
    obtain ⟨r, hr, hp⟩ := List.any_eq_true.1 hany
    simp only [Bool.and_eq_true, decide_eq_true_eq] at hp
    exact he ⟨rfl, r, hr, hp.1, hp.2⟩

theorem rooted_step {w : World} (hw : Staged sha256 w) (hroot : Rooted w.pairs) (e : Event) : Rooted (w.step sha256 e).pairs := by
  cases e with
  | call r => exact hroot
  | tick d => exact hroot
  | step i =>
    rcases step_cases hw i with hsame | ⟨r, h', p', hr, hm, hstep⟩
    · rw [hsame]
      exact hroot
    · rw [hstep]
      exact hm.grows.2.2 hroot
  | sweep =>
    intro s hs
    obtain ⟨hs, hstays⟩ := Table.mem_delete.1 hs
    obtain ⟨r, hr, hid⟩ := hroot s hs
    refine ⟨r, Table.mem_delete.2 ⟨hr, ?_⟩, hid⟩
    simp only [List.any_eq_false, Bool.and_eq_true, decide_eq_true_eq, not_and] at hstays
    exact decide_eq_false (hstays r hr hid)

theorem reply_cases {w : World} (hw : Staged sha256 w) {e : Event} {r : Running} {a : Reply} (h : w.reply sha256 e = some (r, a)) :
    (r.request.handler sha256 w.clock = pure a ∧ (w.step sha256 e).pairs = w.pairs) ∨
      Makes sha256 r.started w.pairs r.request r.handler (pure a) (w.step sha256 e).pairs := by
  cases e with
  | call req =>
    dsimp only [World.reply] at h
    split at h
    · next a' hdone =>
      obtain ⟨rfl, rfl⟩ := Prod.mk.inj (Option.some.inj h)
      exact Or.inl ⟨hdone, rfl⟩
    · cases h
  | step i =>
    dsimp only [World.reply] at h
    cases hr : w.running[i]? with
    | none =>
      rw [hr] at h
      cases h
    | some r' =>
      rw [hr] at h
      dsimp only at h
      split at h
      · next c a' hnext hdone =>
        obtain ⟨rfl, rfl⟩ := Prod.mk.inj (Option.some.inj h)
        rcases stage_step (hw r' (List.mem_of_getElem? hr)).1 w.pairs with ⟨a'', ha⟩ | hm
        · rw [ha] at hnext
          cases hnext
        · rw [hdone] at hm
          have hpairs : (w.step sha256 (.step i)).pairs = (r'.handler.step w.pairs).2 := by simp [World.step, hr]
          rw [hpairs]
          exact Or.inr hm
      · cases h
  | sweep => cases h
  | tick d => cases h

theorem refused_call {req : Request} {t : Int} {a : Reply} (h : req.handler sha256 t = pure a) :
    (∃ id capability slot data e, req = .putPair id capability slot data ∧ a = .put (.error e)) ∨
      ∃ id capability slot, req = .getPair id capability slot ∧ validSlot slot = false := by
  cases req with
  | beginPair id capability ttl => cases h
  | putPair id capability slot data =>
    left
    rw [Request.handler, putPair] at h
    by_cases hs : validSlot slot = false
    · rw [if_pos hs] at h
      cases h
      exact ⟨id, capability, slot, data, .slot, rfl, rfl⟩
    · rw [if_neg hs] at h
      by_cases hd : data.length = 0 ∨ maxPairData < data.length
      · rw [if_pos hd] at h
        cases h
        exact ⟨id, capability, slot, data, .size, rfl, rfl⟩
      · rw [if_neg hd] at h
        cases h
  | getPair id capability slot =>
    right
    by_cases hs : validSlot slot = false
    · exact ⟨id, capability, slot, rfl, hs⟩
    · rw [Request.handler, getPair, if_neg hs] at h
      cases h

section answers

variable {t : Int} {p p' : Pairs} {r : Request} {h h' : Handles Reply} {id capability : Bytes} {slot : String}

theorem Makes.put_ok (hm : Makes sha256 t p r h h' p') {data : Bytes} (hr : r = .putPair id capability slot data)
    (hh : h' = pure (.put (.ok ()))) : ⟨id, slot, data⟩ ∈ p'.slots ∧ validSlot slot = true := by
  cases hm with
  | @putFound id' capability' slot' data' row hs hget =>
    obtain ⟨rfl, rfl, rfl, rfl⟩ : id' = id ∧ capability' = capability ∧ slot' = slot ∧ data' = data := by simpa using hr
    have hdata : row.data = data' := by
      by_contra hne
      rw [if_neg hne] at hh
      cases hh
    obtain ⟨hmem, hkey⟩ := Table.get?_eq_some.1 hget
    obtain ⟨hid, hslot⟩ := Prod.mk.inj hkey
    obtain ⟨rid, rslot, rdata⟩ := row
    dsimp only at hid hslot hdata
    rw [← hid, ← hslot, ← hdata]
    exact ⟨hmem, hslot ▸ hs⟩
  | @putWrites id' capability' slot' data' p' hs hadd =>
    obtain ⟨rfl, rfl, rfl, rfl⟩ : id' = id ∧ capability' = capability ∧ slot' = slot ∧ data' = data := by simpa using hr
    exact ⟨(Table.mem_insert (addSlot_some hadd).2).2 (Or.inr rfl), hs⟩
  | putOpen | putUnknown | putEmpty | putLate => cases hh
  | _ => cases hr

theorem Makes.put_other (hm : Makes sha256 t p r h h' p') {s : SlotRow} (hs : s ∈ p.slots) {data : Bytes} (hne : data ≠ s.data)
    (hr : r = .putPair s.pairId capability s.slot data) {a : Reply} (hh : h' = pure a) :
    (∃ e, a = .put (.error e)) ∧ p' = p := by
  have hget : p.slots.get? (s.pairId, s.slot) = some s := Table.get?_eq_some.2 ⟨hs, rfl⟩
  cases hm with
  | putUnknown hopen =>
    cases hh
    exact ⟨⟨_, rfl⟩, rfl⟩
  | @putFound id' capability' slot' data' row hs' hrow =>
    obtain ⟨rfl, rfl, rfl, rfl⟩ : id' = s.pairId ∧ capability' = capability ∧ slot' = s.slot ∧ data' = data := by simpa using hr
    obtain rfl := Option.some.inj (hget.symm.trans hrow)
    rw [if_neg (Ne.symm hne)] at hh
    cases hh
    exact ⟨⟨_, rfl⟩, rfl⟩
  | @putWrites id' capability' slot' data' p' hs' hadd =>
    obtain ⟨rfl, rfl, rfl, rfl⟩ : id' = s.pairId ∧ capability' = capability ∧ slot' = s.slot ∧ data' = data := by simpa using hr
    exact absurd rfl ((Table.insert_eq_some (addSlot_some hadd).2).2 s hs)
  | putLate hadd =>
    cases hh
    exact ⟨⟨_, rfl⟩, rfl⟩
  | putOpen | putEmpty => cases hh
  | _ => cases hr

theorem Makes.get (hm : Makes sha256 t p r h h' p') {s : SlotRow} (hs : s ∈ p.slots) (hr : r = .getPair s.pairId capability s.slot)
    {a : Reply} (hh : h' = pure a) :
    a = .got (.ok (some s.data)) ∨ (a = .got (.error .unknown) ∧ isOpen s.pairId (sha256 capability) (unix t) p = false) := by
  have hget : p.slots.get? (s.pairId, s.slot) = some s := Table.get?_eq_some.2 ⟨hs, rfl⟩
  cases hm with
  | @getUnknown id' capability' slot' hopen =>
    obtain ⟨rfl, rfl, rfl⟩ : id' = s.pairId ∧ capability' = capability ∧ slot' = s.slot := by simpa using hr
    cases hh
    exact Or.inr ⟨rfl, hopen⟩
  | @getReads id' capability' slot' =>
    obtain ⟨rfl, rfl, rfl⟩ : id' = s.pairId ∧ capability' = capability ∧ slot' = s.slot := by simpa using hr
    rw [hget] at hh
    cases hh
    exact Or.inl rfl
  | getOpen => cases hh
  | _ => cases hr

end answers

/-- A slot that is held: a read of it is answered with what it holds, unless it comes too late
or with another capability, and a write of other bytes is refused and changes nothing. -/
structure Held (sha256 : Bytes → Bytes) (s : SlotRow) (w : World) (e : Event) : Prop where
  holds : s ∈ w.pairs.slots
  get : ∀ r a capability, w.reply sha256 e = some (r, a) → r.request = .getPair s.pairId capability s.slot →
    a = .got (.ok (some s.data)) ∨ (a = .got (.error .unknown) ∧
      ∃ row ∈ w.pairs.rendezvous, row.pairId = s.pairId ∧ (row.capHash ≠ sha256 capability ∨ row.expiresAt ≤ unix r.started))
  put : ∀ r a capability data, w.reply sha256 e = some (r, a) → r.request = .putPair s.pairId capability s.slot data → data ≠ s.data →
    (∃ err, a = .put (.error err)) ∧ (w.step sha256 e).pairs = w.pairs

theorem closed_row {id capHash : Bytes} {now : Int} {p : Pairs} (h : isOpen id capHash now p = false) {row : PairRow}
    (hrow : row ∈ p.rendezvous) (hid : row.pairId = id) : row.capHash ≠ capHash ∨ row.expiresAt ≤ now := by
  by_contra hnot
  rw [not_or, not_not, not_le] at hnot
  refine absurd (List.any_eq_false.1 h row hrow) (not_not.2 ?_)
  simp [hid, hnot.1, hnot.2]

theorem held_of_slot {w : World} (hw : Staged sha256 w) (hroot : Rooted w.pairs) {s : SlotRow} (hs : s ∈ w.pairs.slots)
    (hvalid : validSlot s.slot = true) (e : Event) : Held sha256 s w e where
  holds := hs
  get r a capability h hr := by
    rcases reply_cases hw h with ⟨hdone, -⟩ | hm
    · rcases refused_call hdone with ⟨_, _, _, _, _, hput, -⟩ | ⟨id, capability', slot, hget, hinvalid⟩
      · rw [hr] at hput
        cases hput
      · rw [hr] at hget
        cases hget
        rw [hvalid] at hinvalid
        cases hinvalid
    · refine (hm.get hs hr rfl).imp_right fun ⟨ha, hclosed⟩ => ⟨ha, ?_⟩
      obtain ⟨row, hrow, hid⟩ := hroot s hs
      exact ⟨row, hrow, hid, closed_row hclosed hrow hid⟩
  put r a capability data h hr hne := by
    rcases reply_cases hw h with ⟨hdone, hpairs⟩ | hm
    · rcases refused_call hdone with ⟨_, _, _, _, err, -, ha⟩ | ⟨_, _, _, hget, -⟩
      · exact ⟨⟨err, ha⟩, hpairs⟩
      · rw [hr] at hget
        cases hget
    · exact hm.put_other hs hne hr rfl

theorem staged_run (clock : Int) (evs : List Event) :
    Staged sha256 (Trace.run (World.step sha256) (.start clock) evs) ∧ Rooted (Trace.run (World.step sha256) (.start clock) evs).pairs := by
  have hmeets : Trace.Meets (World.step sha256) (fun _ _ => True) (.start clock) evs := Trace.meets_true _ evs
  refine Trace.invariant (I := fun w => Staged sha256 w ∧ Rooted w.pairs)
    (fun w e _ ⟨hw, hroot⟩ => ⟨staged_step hw e, rooted_step hw hroot e⟩) hmeets ⟨?_, ?_⟩
  · intro r hr
    cases hr
  · exact fun s hs => absurd hs (Table.not_mem_empty s)

theorem bounded_run {clock : Int} {evs : List Event}
    (h : Trace.Meets (World.step sha256) (fun w e => w.letsThrough e = true) (.start clock) evs) :
    Bounded (Trace.run (World.step sha256) (.start clock) evs) := by
  refine (Trace.invariant (I := fun w => Staged sha256 w ∧ Bounded w)
    (fun w e hc ⟨hw, hb⟩ => ⟨staged_step hw e, bounded_step hw hc hb⟩) h ⟨?_, ?_⟩).2
  · intro r hr
    cases hr
  · exact Nat.zero_le _

theorem slot_run {w : World} (hw : Staged sha256 w) {s : SlotRow} (hs : s ∈ w.pairs.slots) {evs : List Event}
    (h : Trace.Meets (World.step sha256) (fun w e => ¬ Sweeps s.pairId w e) w evs) :
    s ∈ (Trace.run (World.step sha256) w evs).pairs.slots := by
  refine (Trace.invariant (I := fun w => Staged sha256 w ∧ s ∈ w.pairs.slots)
    (fun w e hc ⟨hw, hs⟩ => ⟨staged_step hw e, slot_step hw hs hc⟩) h ⟨hw, hs⟩).2

/-- Where no request is let through beyond the bound, the bound is kept in every state; and
what a successful write put into a slot is held until the rendezvous is swept. -/
theorem rendezvous_are_bounded (sha256 : Bytes → Bytes) (clock : Int) (evs : List Event)
    (h : Trace.Meets (World.step sha256) (fun w e => w.letsThrough e = true) (.start clock) evs) :
    (∀ before later, evs = before ++ later → (Trace.run (World.step sha256) (.start clock) before).live ≤ maxOpenRendezvous) ∧
    ∀ before e mid e' later, evs = before ++ e :: (mid ++ e' :: later) → ∀ r id capability slot data,
      (Trace.run (World.step sha256) (.start clock) before).reply sha256 e = some (r, .put (.ok ())) →
      r.request = .putPair id capability slot data →
      Trace.Meets (World.step sha256) (fun w e => ¬ Sweeps id w e) (Trace.run (World.step sha256) (.start clock) (before ++ [e])) mid →
        Held sha256 ⟨id, slot, data⟩ (Trace.run (World.step sha256) (.start clock) (before ++ e :: mid)) e' := by
  refine ⟨?_, ?_⟩
  · rintro before later rfl
    exact le_trans (Nat.le_add_right _ _) (bounded_run (Trace.meets_append.1 h).1)
  · intro before e mid e' later hevs r id capability slot data hreply hr hmid
    obtain ⟨hw, -⟩ := @staged_run sha256 clock before
    have hput : ⟨id, slot, data⟩ ∈ ((Trace.run (World.step sha256) (.start clock) before).step sha256 e).pairs.slots ∧
        validSlot slot = true := by
      rcases reply_cases hw hreply with ⟨hdone, -⟩ | hm
      · rcases refused_call hdone with ⟨_, _, _, _, _, -, hput⟩ | ⟨_, _, _, hget, -⟩
        · cases hput
        · rw [hr] at hget
          cases hget
      · exact hm.put_ok hr rfl
    rw [Trace.run_append] at hmid
    obtain ⟨hw', hroot⟩ := @staged_run sha256 clock (before ++ e :: mid)
    rw [Trace.run_append, Trace.run_cons] at hw' hroot ⊢
    exact held_of_slot hw' hroot (slot_run (staged_step hw e) hput.1 hmid) hput.2 e'

def pairing : List Event :=
  [.call (.beginPair [1] [2] (60 * 10 ^ 9)), .step 0, .step 0, .call (.putPair [1] [2] "b" [3]), .step 1, .step 1]

theorem pairing_is_held :
    (Trace.run (World.step id) (.start 0) pairing).reply id (.step 1) =
      some (⟨.putPair [1] [2] "b" [3], 0, writes [1] "b" [3]⟩, .put (.ok ())) ∧
    Held id ⟨[1], "b", [3]⟩ (Trace.run (World.step id) (.start 0) (pairing ++ Event.step 1 :: [.call (.getPair [1] [2] "b"), .step 2])) (.step 2) := by
  have hmeets : Trace.Meets (World.step id) (fun w e => w.letsThrough e = true) (.start 0)
      (pairing ++ Event.step 1 :: ([.call (.getPair [1] [2] "b"), .step 2] ++ Event.step 2 :: [])) := by decide +kernel
  have hreply : (Trace.run (World.step id) (.start 0) pairing).reply id (.step 1) =
      some (⟨.putPair [1] [2] "b" [3], 0, writes [1] "b" [3]⟩, .put (.ok ())) := rfl
  refine ⟨hreply, (rendezvous_are_bounded id 0 _ hmeets).2 pairing (.step 1) _ _ _ rfl _ _ _ _ _ hreply rfl ⟨?_, ?_, trivial⟩⟩
  · exact fun hsweep => nomatch hsweep.1
  · exact fun hsweep => nomatch hsweep.1

/-- Thirty-three requests count before the first of them inserts. -/
def crowd : List Event :=
  (List.range 33).map (fun i => .call (.beginPair [UInt8.ofNat i] [2] (60 * 10 ^ 9))) ++ (List.range 33).map .step ++
    (List.range 33).map .step

theorem crowd_exceeds_the_bound : (Trace.run (World.step id) (.start 0) crowd).live = maxOpenRendezvous + 1 := by decide +kernel

end Arveil.Rendezvous
