import Mathlib.Data.List.Induction
import Arveil.Spec.Limits

/-! The connection gate. Its counts are those of the slots held, and in no window does it allow
more than its limits; a call is refused only where its window is full. -/

namespace Arveil.Limits

open Trace (run run_cons run_append run_nil)
open Window (Follows Sparse after)

theorem set_same {ν : Type} (m : GoMap ν) (addr : String) (v : Option ν) : m.set addr v addr = v := if_pos rfl

theorem set_other {ν : Type} {addr a : String} (h : a ≠ addr) (m : GoMap ν) (v : Option ν) : m.set addr v a = m a := if_neg h

def heldBy (addr : String) (slots : List Slot) : Nat := (slots.filter fun s => !s.released && decide (s.addr = addr)).length

structure Counted (w : World) : Prop where
  total : w.gate.total = w.held.length
  perAddr : ∀ a, (w.gate.perAddr a).getD 0 = heldBy a w.slots
  positive : ∀ a n, w.gate.perAddr a = some n → 0 < n
  totalBound : w.gate.total ≤ w.gate.cfg.maxTotal
  addrBound : ∀ a, (w.gate.perAddr a).getD 0 ≤ w.gate.cfg.maxPerAddr

theorem heldBy_append (addr a : String) (slots : List Slot) :
    heldBy a (slots ++ [⟨addr, false⟩]) = heldBy a slots + if addr = a then 1 else 0 := by
  rw [heldBy, heldBy, List.filter_append, List.length_append]
  by_cases ha : addr = a <;> simp [ha]

theorem filter_set_released {slots : List Slot} {i : Nat} {slot : Slot} (hi : slots[i]? = some slot) (hheld : slot.released = false)
    (p : Slot → Bool) :
    ((slots.set i { slot with released := true }).filter fun s => !s.released && p s).length + (if p slot then 1 else 0) =
      (slots.filter fun s => !s.released && p s).length := by
  induction slots generalizing i with
  | nil => cases hi
  | cons s slots ih =>
    cases i with
    | zero =>
      obtain rfl := Option.some.inj hi
      rw [List.set_cons_zero, List.filter_cons, List.filter_cons]
      cases hp : p s <;> simp [hheld]
    | succ i =>
      have := ih hi
      rw [List.set_cons_succ, List.filter_cons, List.filter_cons]
      cases hs : !s.released && p s
      · simpa using this
      · simp only [if_true, List.length_cons]
        omega

def World.taken (w : World) (addr : String) : World :=
  { w with
    gate := { w.gate with
      total := w.gate.total + 1
      perAddr := w.gate.perAddr.set addr (some ((w.gate.perAddr addr).getD 0 + 1)) }
    slots := w.slots ++ [⟨addr, false⟩] }

def World.freed (w : World) (i : Nat) (slot : Slot) : World :=
  { w with gate := w.gate.release slot.addr, slots := w.slots.set i { slot with released := true } }

theorem step_acquire_eq (w : World) (addr : String) :
    step w (.acquire addr) = { w with
      gate := (w.gate.acquire addr).2
      slots := if (w.gate.acquire addr).1 then w.slots ++ [⟨addr, false⟩] else w.slots } := rfl

theorem step_acquire (w : World) (addr : String) :
    step w (.acquire addr) = w ∨
      step w (.acquire addr) = w.taken addr ∧ ¬(0 < w.gate.cfg.maxTotal ∧ w.gate.cfg.maxTotal ≤ w.gate.total) ∧
        ¬(0 < w.gate.cfg.maxPerAddr ∧ w.gate.cfg.maxPerAddr ≤ (w.gate.perAddr addr).getD 0) := by
  rw [step_acquire_eq]
  by_cases hfull : 0 < w.gate.cfg.maxTotal ∧ w.gate.cfg.maxTotal ≤ w.gate.total
  · have hrefused : w.gate.acquire addr = (false, w.gate) := if_pos hfull
    rw [hrefused]
    exact Or.inl rfl
  · by_cases hmany : 0 < w.gate.cfg.maxPerAddr ∧ w.gate.cfg.maxPerAddr ≤ (w.gate.perAddr addr).getD 0
    · have hrefused : w.gate.acquire addr = (false, w.gate) := (if_neg hfull).trans (if_pos hmany)
      rw [hrefused]
      exact Or.inl rfl
    · have hok : w.gate.acquire addr = (true, (w.taken addr).gate) := (if_neg hfull).trans (if_neg hmany)
      rw [hok]
      exact Or.inr ⟨rfl, hfull, hmany⟩

theorem acquire_answer {w : World} (h : Counted w) (htotal : 0 < w.gate.cfg.maxTotal) (haddr : 0 < w.gate.cfg.maxPerAddr)
    (addr : String) : (w.gate.acquire addr).1 = true ↔
      (w.held.length : Int) < w.gate.cfg.maxTotal ∧ (heldBy addr w.slots : Int) < w.gate.cfg.maxPerAddr := by
  rw [← h.total, ← h.perAddr addr]
  unfold Gate.acquire
  split_ifs with hfull hmany
  · exact ⟨nofun, fun hroom => absurd hfull.2 (not_le.2 hroom.1)⟩
  · exact ⟨nofun, fun hroom => absurd hmany.2 (not_le.2 hroom.2)⟩
  · refine ⟨fun _ => ⟨?_, ?_⟩, fun _ => rfl⟩ <;> omega

theorem step_release_eq (w : World) (i : Nat) :
    step w (.release i) = match w.slots[i]? with
      | some slot => if slot.released then w else w.freed i slot
      | none => w := rfl

theorem step_release (w : World) (i : Nat) :
    step w (.release i) = w ∨
      ∃ slot, w.slots[i]? = some slot ∧ slot.released = false ∧ step w (.release i) = w.freed i slot := by
  rw [step_release_eq]
  cases w.slots[i]? with
  | none => exact Or.inl rfl
  | some slot =>
    cases hreleased : slot.released with
    | true => exact Or.inl (if_pos hreleased)
    | false => exact Or.inr ⟨slot, rfl, hreleased, by simp [hreleased]⟩

theorem taken_map (w : World) (addr : String) :
    (w.taken addr).gate.perAddr = w.gate.perAddr.set addr (some ((w.gate.perAddr addr).getD 0 + 1)) := rfl

theorem freed_map (w : World) (i : Nat) (slot : Slot) :
    (w.freed i slot).gate.perAddr = w.gate.perAddr.set slot.addr
      (if 0 < (w.gate.perAddr slot.addr).getD 0 - 1 then some ((w.gate.perAddr slot.addr).getD 0 - 1) else none) := rfl

theorem taken_perAddr (w : World) (addr a : String) :
    ((w.taken addr).gate.perAddr a).getD 0 = (w.gate.perAddr a).getD 0 + if addr = a then 1 else 0 := by
  by_cases ha : addr = a
  · subst ha
    rw [taken_map, set_same, if_pos rfl]
    rfl
  · rw [taken_map, set_other (Ne.symm ha), if_neg ha]
    omega

theorem acquire_counted {w : World} (h : Counted w) (htotal : 0 < w.gate.cfg.maxTotal) (haddr : 0 < w.gate.cfg.maxPerAddr)
    (addr : String) : Counted (step w (.acquire addr)) := by
  rcases step_acquire w addr with hsame | ⟨htaken, hfull, hmany⟩
  · rw [hsame]
    exact h
  · rw [htaken]
    refine ⟨?_, fun a => ?_, fun a n hn => ?_, ?_, fun a => ?_⟩
    · show w.gate.total + 1 = ((w.slots ++ [(⟨addr, false⟩ : Slot)]).filter fun s => !s.released).length
      rw [h.total, World.held, List.filter_append, List.length_append]
      simp
    · rw [taken_perAddr, h.perAddr a, World.taken, heldBy_append]
      split_ifs <;> simp
    · by_cases ha : a = addr
      · subst ha
        have hn : (w.gate.perAddr a).getD 0 + 1 = n := Option.some.inj ((set_same _ _ _).symm.trans hn)
        have := h.perAddr a
        omega
      · exact h.positive a n ((set_other ha w.gate.perAddr _).symm.trans hn)
    · show w.gate.total + 1 ≤ w.gate.cfg.maxTotal
      omega
    · rw [taken_perAddr]
      have := h.addrBound a
      show _ ≤ w.gate.cfg.maxPerAddr
      split_ifs with ha
      · subst ha
        omega
      · omega

theorem freed_perAddr {w : World} (h : Counted w) {i : Nat} {slot : Slot} (hi : w.slots[i]? = some slot)
    (hheld : slot.released = false) (a : String) :
    ((w.freed i slot).gate.perAddr a).getD 0 = (w.gate.perAddr a).getD 0 - if slot.addr = a then 1 else 0 := by
  by_cases ha : slot.addr = a
  · subst ha
    have hown := filter_set_released hi hheld fun s => decide (s.addr = slot.addr)
    have hpos := h.perAddr slot.addr
    rw [freed_map, set_same, if_pos rfl]
    simp only [decide_true, if_true] at hown
    rw [heldBy] at hpos
    split_ifs <;> simp only [Option.getD_some, Option.getD_none] <;> omega
  · rw [freed_map, set_other (Ne.symm ha), if_neg ha]
    omega

theorem release_counted {w : World} (h : Counted w) (i : Nat) : Counted (step w (.release i)) := by
  rcases step_release w i with hsame | ⟨slot, hi, hheld, hfreed⟩
  · rw [hsame]
    exact h
  · rw [hfreed]
    have hcount := freed_perAddr h hi hheld
    refine ⟨?_, fun a => ?_, fun a n hn => ?_, ?_, fun a => ?_⟩
    · have hall := filter_set_released hi hheld fun _ => true
      simp only [Bool.and_true, if_true] at hall
      have htotal := h.total
      unfold World.held at htotal ⊢
      show w.gate.total - 1 = ((w.slots.set i { slot with released := true }).filter fun s => !s.released).length
      omega
    · have hown := filter_set_released hi hheld fun s => decide (s.addr = a)
      rw [hcount a, h.perAddr a, heldBy, heldBy, ← hown, World.freed]
      by_cases ha : slot.addr = a <;> simp [ha]
    · by_cases ha : a = slot.addr
      · subst ha
        rw [freed_map, set_same] at hn
        split_ifs at hn with hpos
        exact Option.some.inj hn ▸ hpos
      · rw [freed_map, set_other ha] at hn
        exact h.positive a n hn
    · have := h.totalBound
      show w.gate.total - 1 ≤ w.gate.cfg.maxTotal
      omega
    · have := h.addrBound a
      rw [hcount a]
      show _ ≤ w.gate.cfg.maxPerAddr
      split_ifs <;> omega

theorem timesOf_snoc (a addr : String) (now : Int) (log : List (String × Int)) :
    timesOf a (log ++ [(addr, now)]) = timesOf a log ++ if addr = a then [now] else [] := by
  rw [timesOf, timesOf, List.filter_append, List.map_append]
  by_cases ha : addr = a <;> simp [ha]

/-- A map of recent times, a log of all allowed ones, and every time a call was given. -/
structure Kept (limit width : Int) (times : List Int) (log : List (String × Int)) (m : GoMap (List Int)) : Prop where
  follows : ∀ clock, (∀ t ∈ times, t ≤ clock) → ∀ a, Follows width clock (timesOf a log) ((m a).getD [])
  sparse : ∀ a, Sparse limit width (timesOf a log)
  told : ∀ e ∈ log, e.2 ∈ times

theorem kept_start {limit : Int} (width : Int) (h : 0 ≤ limit) : Kept limit width [] [] fun _ => none :=
  ⟨fun _ _ _ => Window.follows_nil _ _, fun _ => Window.sparse_nil _ h, nofun⟩

theorem Kept.told_more {limit width : Int} {times : List Int} {log : List (String × Int)} {m : GoMap (List Int)}
    (h : Kept limit width times log m) (more : List Int) : Kept limit width (times ++ more) log m :=
  ⟨fun clock hclock => h.follows clock fun t ht => hclock t (List.mem_append_left more ht), h.sparse,
    fun e he => List.mem_append_left more (h.told e he)⟩

theorem expire_follows {limit width now : Int} {times : List Int} {log : List (String × Int)} {m : GoMap (List Int)}
    (h : Kept limit width times log m) (hnow : ∀ t ∈ times, t ≤ now) (a : String) :
    Follows width now (timesOf a log) ((Gate.expire m (now - width) a).getD []) := by
  have hfollows := h.follows now hnow a
  unfold Gate.expire
  cases hm : m a with
  | none =>
    rw [hm] at hfollows
    exact hfollows
  | some items =>
    rw [hm] at hfollows
    rw [Option.filter_some]
    split_ifs with hopen
    · exact hfollows
    · refine hfollows.drop (Int.le_refl now) fun t ht => ?_
      have hlast : items.getLast? = some t := ht
      rw [hlast, Option.any_some, decide_eq_true_eq] at hopen
      omega

/-- The calls allowed in the window of `width` that ends at `now`. -/
def inWindow (width now : Int) (times : List Int) : Nat :=
  (times.filter fun t => decide (now - width < t) && decide (t ≤ now)).length

theorem inWindow_eq {width now : Int} {times : List Int} (h : ∀ t ∈ times, t ≤ now) :
    inWindow width now times = (after (now - width) times).length := by
  unfold inWindow after
  refine congrArg List.length (List.filter_congr fun t ht => ?_)
  rw [decide_eq_true (h t ht), Bool.and_true]

theorem timesOf_told {limit width : Int} {times : List Int} {log : List (String × Int)} {m : GoMap (List Int)}
    (h : Kept limit width times log m) {a : String} {t : Int} (ht : t ∈ timesOf a log) : t ∈ times := by
  obtain ⟨e, he, rfl⟩ := List.mem_map.1 ht
  exact h.told e (List.mem_filter.1 he).1

theorem Kept.allow {limit width now : Int} {times : List Int} {log : List (String × Int)} {m m₁ : GoMap (List Int)}
    (h : Kept limit width times log m) (hnow : ∀ t ∈ times, t ≤ now)
    (hm₁ : ∀ a, Follows width now (timesOf a log) ((m₁ a).getD [])) (addr : String) :
    ((Window.allow limit width ((m₁ addr).getD []) now).1 = false ↔ limit ≤ inWindow width now (timesOf addr log)) ∧
      Kept limit width (times ++ [now])
        (if (Window.allow limit width ((m₁ addr).getD []) now).1 then log ++ [(addr, now)] else log)
        (m₁.set addr (some (Window.allow limit width ((m₁ addr).getD []) now).2)) := by
  have hspec : _ ∧ Follows width now _ (Window.allow limit width ((m₁ addr).getD []) now).2 :=
    Window.allow_spec (hm₁ addr) (Int.le_refl now)
  obtain ⟨hanswer, hfollows⟩ := hspec
  rw [inWindow_eq fun t ht => hnow t (timesOf_told h ht)]
  refine ⟨hanswer, ?_⟩
  generalize Window.allow limit width ((m₁ addr).getD []) now = r at hanswer hfollows
  have hlog : ∀ a, timesOf a (if r.1 then log ++ [(addr, now)] else log) =
      if addr = a ∧ r.1 = true then timesOf a log ++ [now] else timesOf a log := by
    intro a
    split_ifs with h₁ h₂ h₂
    · rw [timesOf_snoc, if_pos h₂.1]
    · rw [timesOf_snoc, if_neg fun ha => h₂ ⟨ha, h₁⟩, List.append_nil]
    · exact absurd h₂.2 h₁
    · rfl
  refine ⟨fun clock hclock a => ?_, fun a => ?_, fun e he => ?_⟩
  · have hle : now ≤ clock := hclock now (List.mem_append_right times (List.mem_singleton_self now))
    rw [hlog a]
    by_cases ha : addr = a
    · subst ha
      rw [set_same]
      simp only [true_and]
      exact hfollows.later hle
    · rw [set_other (Ne.symm ha), if_neg fun hand => ha hand.1]
      exact (hm₁ a).later hle
  · rw [hlog a]
    split_ifs with hand
    · obtain ⟨rfl, hok⟩ := hand
      refine (h.sparse addr).snoc ?_
      have : ¬limit ≤ _ := fun hfull => by
        rw [hanswer.2 hfull] at hok
        cases hok
      omega
    · exact h.sparse a
  · split_ifs at he
    · rcases List.mem_append.1 he with he | he
      · exact List.mem_append_left _ (h.told e he)
      · rw [List.mem_singleton.1 he]
        exact List.mem_append_right times (List.mem_singleton_self now)
    · exact List.mem_append_left _ (h.told e he)

variable {cfg : Config}

/-- A configuration that sets every limit. -/
structure Config.Positive (cfg : Config) : Prop where
  invitations : 0 < cfg.invitationsPerAddr
  total : 0 < cfg.maxTotal
  perAddr : 0 < cfg.maxPerAddr
  pairings : 0 < cfg.pairingsPerAddr

structure Inv (cfg : Config) (ops : List Op) (w : World) : Prop where
  cfg_eq : w.gate.cfg = cfg
  counted : Counted w
  pairings : Kept cfg.pairingsPerAddr cfg.pairingWindow (ops.filterMap Op.time) w.pairings w.gate.pairings
  invitations : Kept cfg.invitationsPerAddr minute (ops.filterMap Op.time) w.invitations w.gate.invitations

theorem inv_start (hcfg : cfg.Positive) : Inv cfg [] (start cfg) where
  cfg_eq := rfl
  counted :=
    { total := rfl
      perAddr := fun _ => rfl
      positive := nofun
      totalBound := Int.le_of_lt hcfg.total
      addrBound := fun _ => Int.le_of_lt hcfg.perAddr }
  pairings := kept_start _ (Int.le_of_lt hcfg.pairings)
  invitations := kept_start _ (Int.le_of_lt hcfg.invitations)

theorem Counted.of_eq {w w' : World} (h : Counted w) (hcfg : w'.gate.cfg = w.gate.cfg) (htotal : w'.gate.total = w.gate.total)
    (hper : w'.gate.perAddr = w.gate.perAddr) (hslots : w'.slots = w.slots) : Counted w' := by
  refine ⟨?_, ?_, ?_, ?_, ?_⟩
  · rw [htotal, World.held, hslots]
    exact h.total
  · rw [hper, hslots]
    exact h.perAddr
  · rw [hper]
    exact h.positive
  · rw [htotal, hcfg]
    exact h.totalBound
  · rw [hper, hcfg]
    exact h.addrBound

theorem step_allowPairing_eq {w : World} (h : 0 < w.gate.cfg.pairingsPerAddr) (addr : String) (now : Int) :
    let r := Window.allow w.gate.cfg.pairingsPerAddr w.gate.cfg.pairingWindow ((w.gate.pairings addr).getD []) now
    (w.gate.allowPairing addr now).1 = r.1 ∧ step w (.allowPairing addr now) = { w with
      gate := { w.gate with pairings := w.gate.pairings.set addr (some r.2) }
      pairings := if r.1 then w.pairings ++ [(addr, now)] else w.pairings } := by
  have hcall : w.gate.allowPairing addr now = _ := if_neg (show ¬w.gate.cfg.pairingsPerAddr ≤ 0 by omega)
  have hstep : step w (.allowPairing addr now) = { w with
      gate := (w.gate.allowPairing addr now).2
      pairings := if (w.gate.allowPairing addr now).1 then w.pairings ++ [(addr, now)] else w.pairings } := rfl
  rw [hstep, hcall]
  exact ⟨rfl, rfl⟩

theorem step_allowInvitation_eq {w : World} (h : 0 < w.gate.cfg.invitationsPerAddr) (addr : String) (now : Int) :
    let m := Gate.expire w.gate.invitations (now - minute)
    let r := Window.allow w.gate.cfg.invitationsPerAddr minute ((m addr).getD []) now
    (w.gate.allowInvitation addr now).1 = r.1 ∧ step w (.allowInvitation addr now) = { w with
      gate := { w.gate with invitations := m.set addr (some r.2) }
      invitations := if r.1 then w.invitations ++ [(addr, now)] else w.invitations } := by
  have hcall : w.gate.allowInvitation addr now = _ := if_neg (show ¬w.gate.cfg.invitationsPerAddr ≤ 0 by omega)
  have hstep : step w (.allowInvitation addr now) = { w with
      gate := (w.gate.allowInvitation addr now).2
      invitations := if (w.gate.allowInvitation addr now).1 then w.invitations ++ [(addr, now)] else w.invitations } := rfl
  rw [hstep, hcall]
  exact ⟨rfl, rfl⟩

theorem inv_step (hcfg : cfg.Positive) {ops : List Op} {w : World} (h : Inv cfg ops w) {op : Op} (hclock : Clocked (ops ++ [op])) :
    Inv cfg (ops ++ [op]) (step w op) := by
  have htimes : (ops ++ [op]).filterMap Op.time = ops.filterMap Op.time ++ op.time.toList := by
    rw [List.filterMap_append]
    cases hop : op.time <;> simp [hop]
  have hnow : ∀ now, op.time = some now → ∀ t ∈ ops.filterMap Op.time, t ≤ now := by
    intro now hop t ht
    rw [Clocked, htimes, hop] at hclock
    exact (List.pairwise_append.1 hclock).2.2 t ht now (List.mem_singleton_self now)
  have hp := h.pairings.told_more op.time.toList
  have hi := h.invitations.told_more op.time.toList
  rw [← htimes] at hp hi
  cases op with
  | acquire addr =>
    have hcounted := acquire_counted h.counted (h.cfg_eq ▸ hcfg.total) (h.cfg_eq ▸ hcfg.perAddr) addr
    rcases step_acquire w addr with hsame | ⟨htaken, -⟩
    · rw [hsame]
      exact ⟨h.cfg_eq, h.counted, hp, hi⟩
    · rw [htaken] at hcounted ⊢
      exact ⟨h.cfg_eq, hcounted, hp, hi⟩
  | release i =>
    have hcounted := release_counted h.counted i
    rcases step_release w i with hsame | ⟨slot, -, -, hfreed⟩
    · rw [hsame]
      exact ⟨h.cfg_eq, h.counted, hp, hi⟩
    · rw [hfreed] at hcounted ⊢
      exact ⟨h.cfg_eq, hcounted, hp, hi⟩
  | allowPairing addr now =>
    have hlimit : 0 < w.gate.cfg.pairingsPerAddr := h.cfg_eq ▸ hcfg.pairings
    have hfollows := h.pairings.follows now (hnow now rfl)
    have hkept := (h.pairings.allow (hnow now rfl) hfollows addr).2
    rw [(step_allowPairing_eq hlimit addr now).2, h.cfg_eq]
    refine ⟨h.cfg_eq, h.counted.of_eq rfl rfl rfl rfl, ?_, hi⟩
    rw [htimes]
    exact hkept
  | allowInvitation addr now =>
    have hlimit : 0 < w.gate.cfg.invitationsPerAddr := h.cfg_eq ▸ hcfg.invitations
    have hfollows := expire_follows h.invitations (hnow now rfl)
    have hkept := (h.invitations.allow (hnow now rfl) hfollows addr).2
    rw [(step_allowInvitation_eq hlimit addr now).2, h.cfg_eq]
    refine ⟨h.cfg_eq, h.counted.of_eq rfl rfl rfl rfl, hp, ?_⟩
    rw [htimes]
    exact hkept

theorem Clocked.before {ops ops' : List Op} (h : Clocked (ops ++ ops')) : Clocked ops := by
  unfold Clocked at h ⊢
  rw [List.filterMap_append] at h
  exact (List.pairwise_append.1 h).1

theorem inv_run (hcfg : cfg.Positive) {ops : List Op} (hclock : Clocked ops) : Inv cfg ops (run step (start cfg) ops) := by
  induction ops using List.reverseRecOn with
  | nil => exact inv_start hcfg
  | append_singleton ops op ih =>
    rw [run_append, run_cons, run_nil]
    exact inv_step hcfg (ih hclock.before) hclock

/-- The calls allowed in either half-open window of `width` from `c` on are at most `limit`. -/
def Bounded (limit width : Int) (times : List Int) : Prop :=
  ∀ c, ((times.filter fun t => decide (c < t) && decide (t ≤ c + width)).length : Int) ≤ limit ∧
    ((times.filter fun t => decide (c ≤ t) && decide (t < c + width)).length : Int) ≤ limit

/-- What the gate promises after some calls and at each of them. -/
structure Exact (cfg : Config) (ops : List Op) : Prop where
  counted : Counted (run step (start cfg) ops)
  acquired : ∀ ops₁ a ops₂, ops = ops₁ ++ Op.acquire a :: ops₂ →
    (((run step (start cfg) ops₁).gate.acquire a).1 = true ↔
      ((run step (start cfg) ops₁).held.length : Int) < cfg.maxTotal ∧
        (heldBy a (run step (start cfg) ops₁).slots : Int) < cfg.maxPerAddr)
  pairings : ∀ a, Bounded cfg.pairingsPerAddr cfg.pairingWindow (timesOf a (run step (start cfg) ops).pairings)
  invitations : ∀ a, Bounded cfg.invitationsPerAddr minute (timesOf a (run step (start cfg) ops).invitations)
  pairingRefused : ∀ ops₁ a now ops₂, ops = ops₁ ++ Op.allowPairing a now :: ops₂ →
    (((run step (start cfg) ops₁).gate.allowPairing a now).1 = false ↔
      cfg.pairingsPerAddr ≤ inWindow cfg.pairingWindow now (timesOf a (run step (start cfg) ops₁).pairings))
  invitationRefused : ∀ ops₁ a now ops₂, ops = ops₁ ++ Op.allowInvitation a now :: ops₂ →
    (((run step (start cfg) ops₁).gate.allowInvitation a now).1 = false ↔
      cfg.invitationsPerAddr ≤ inWindow minute now (timesOf a (run step (start cfg) ops₁).invitations))

theorem clocked_at {ops ops₁ ops₂ : List Op} {op : Op} {now : Int} (h : Clocked ops) (hops : ops = ops₁ ++ op :: ops₂)
    (hnow : op.time = some now) : Clocked ops₁ ∧ ∀ t ∈ ops₁.filterMap Op.time, t ≤ now := by
  subst hops
  refine ⟨h.before, fun t ht => ?_⟩
  unfold Clocked at h
  rw [List.filterMap_append, List.filterMap_cons, hnow] at h
  exact (List.pairwise_append.1 h).2.2 t ht now List.mem_cons_self

/-- The gate is exact on every run with a clock that does not go back. -/
theorem gate_is_exact (hcfg : cfg.Positive) {ops : List Op} (hclock : Clocked ops) : Exact cfg ops where
  counted := (inv_run hcfg hclock).counted
  acquired := by
    rintro ops₁ a ops₂ rfl
    have hinv := inv_run hcfg hclock.before
    have htotal : 0 < (run step (start cfg) ops₁).gate.cfg.maxTotal := by rw [hinv.cfg_eq]; exact hcfg.total
    have haddr : 0 < (run step (start cfg) ops₁).gate.cfg.maxPerAddr := by rw [hinv.cfg_eq]; exact hcfg.perAddr
    have hanswer := acquire_answer hinv.counted htotal haddr a
    rwa [hinv.cfg_eq] at hanswer
  pairings a := ((inv_run hcfg hclock).pairings.sparse a).window
  invitations a := ((inv_run hcfg hclock).invitations.sparse a).window
  pairingRefused := by
    intro ops₁ a now ops₂ hops
    obtain ⟨hbefore, hnow⟩ := clocked_at hclock hops rfl
    have hinv := inv_run hcfg hbefore
    have hlimit : 0 < (run step (start cfg) ops₁).gate.cfg.pairingsPerAddr := by rw [hinv.cfg_eq]; exact hcfg.pairings
    rw [(step_allowPairing_eq hlimit a now).1, hinv.cfg_eq]
    exact (hinv.pairings.allow hnow (hinv.pairings.follows now hnow) a).1
  invitationRefused := by
    intro ops₁ a now ops₂ hops
    obtain ⟨hbefore, hnow⟩ := clocked_at hclock hops rfl
    have hinv := inv_run hcfg hbefore
    have hlimit : 0 < (run step (start cfg) ops₁).gate.cfg.invitationsPerAddr := by rw [hinv.cfg_eq]; exact hcfg.invitations
    rw [(step_allowInvitation_eq hlimit a now).1, hinv.cfg_eq]
    exact (hinv.invitations.allow hnow (expire_follows hinv.invitations hnow) a).1

/-- A second release of a slot and two calls at the same second. -/
theorem default_is_exact : Exact default
    [.acquire "a", .release 0, .release 0, .allowPairing "a" 5, .allowPairing "a" 5, .allowInvitation "b" 7] :=
  gate_is_exact ⟨by decide, by decide, by decide, by decide⟩ (by unfold Clocked; decide)

end Arveil.Limits
