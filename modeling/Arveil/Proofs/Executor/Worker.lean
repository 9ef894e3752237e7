import Arveil.Proofs.Executor.Invariant

/-! The worker comes to an end. The locks are taken in one order, so commands never wait for each
other in a cycle, and where no step of the worker changes anything every accepted command has
its reply. -/

namespace Arveil.Executor

open Commands (Lock)

def World.holds (w : World) (i : Nat) (l : Lock) : Prop := ∃ s, w.submits[i]? = some s ∧ l ∈ s.phase.held

def World.wants (w : World) (i : Nat) : Option Lock := w.submits[i]?.bind fun s => s.phase.wants

/-- Enrollment is taken before any other lock. -/
def rank : Lock → Nat
  | .enrollment => 0
  | _ => 1

theorem exclusions_ascend (c : ClientCommand) : c.exclusions.Pairwise fun l l' => rank l < rank l' := by
  cases c with
  | invitations action =>
    cases action with
    | list refresh => cases refresh <;> decide
    | _ => decide
  | _ => decide

theorem wants_some {w : World} {i : Nat} {l : Lock} (h : w.wants i = some l) :
    ∃ s held wanted, w.submits[i]? = some s ∧ s.phase = .acquiring held (l :: wanted) := by
  obtain ⟨s, hs, hl⟩ := Option.bind_eq_some_iff.1 h
  cases hp : s.phase with
  | acquiring held wanted =>
    cases wanted with
    | nil =>
      rw [hp] at hl
      nomatch hl
    | cons l' wanted =>
      rw [hp] at hl
      obtain rfl : l' = l := Option.some.inj hl
      exact ⟨s, held, wanted, hs, hp⟩
  | _ =>
    rw [hp] at hl
    nomatch hl

theorem ascending {w : World} (h : Inv w) : LockOrder.Ascending w.holds w.wants rank := by
  rintro i l l' hwants ⟨s, hs, hheld⟩
  obtain ⟨s', held, wanted, hs', hp⟩ := wants_some hwants
  obtain rfl := Option.some.inj (hs.symm.trans hs')
  have hall := exclusions_ascend s.request.command
  rw [← (h.submits i s hs).locks held _ hp] at hall
  rw [hp] at hheld
  exact (List.pairwise_append.1 hall).2.2 l' (List.mem_reverse.2 hheld) l List.mem_cons_self

/-- The steps the worker still has to take for a command. -/
def Phase.left (r : Request) : Phase → Nat
  | .queued => r.command.exclusions.length + r.waits + 7
  | .fresh => r.command.exclusions.length + r.waits + 6
  | .acquiring _ wanted => wanted.length + r.waits + 5
  | .working _ left => left + 4
  | .panicked => 3
  | .returned _ => 2
  | .turnedAway | .replied => 1
  | _ => 0

def World.load (w : World) : Nat := (w.submits.map fun s => s.phase.left s.request).sum

/-- What is left for the worker; only the callers add to it. -/
def World.work (w : World) : Nat := 2 * w.load + w.current.isSome.toNat + w.accepting.toNat + (!w.ended).toNat

theorem sum_map_modify {α : Type} {f : α → α} {g : α → Nat} {l : List α} {i : Nat} {a : α} (h : l[i]? = some a) :
    ((l.modify i f).map g).sum + g a = (l.map g).sum + g (f a) := by
  induction l generalizing i with
  | nil => nomatch h
  | cons b l ih =>
    cases i with
    | zero =>
      obtain rfl : b = a := Option.some.inj h
      simp only [List.modify_zero_cons, List.map_cons, List.sum_cons]
      omega
    | succ i =>
      have := ih h
      simp only [List.modify_succ_cons, List.map_cons, List.sum_cons]
      omega

theorem load_move {w : World} {i : Nat} {s : Submit} (p : Phase) (hs : w.submits[i]? = some s) :
    (w.move i p).load + s.phase.left s.request = w.load + p.left s.request :=
  sum_map_modify hs

def Blocked (s : Submit) (w : World) : Prop := ∃ l, s.phase.wants = some l ∧ isHeld l w = true

theorem pollStep_lowers {i : Nat} {s : Submit} {w : World} (hs : w.submits[i]? = some s) (hrun : s.phase.running = true)
    (hcan : Blocked s w → w.current = some i) : (pollStep i s w).work < w.work := by
  have hmoved : ∀ {v : World} {p : Phase} {c : Option Nat}, v.submits = w.submits → v.accepting = w.accepting →
      v.ended = w.ended → p.left s.request < s.phase.left s.request → ((v.move i p).poll c).work < w.work := by
    intro w' p c hsub ha he hlt
    have hload := load_move p (w := w') (hsub ▸ hs)
    have hsame : w'.load = w.load := by rw [World.load, World.load, hsub]
    have hw : ((w'.move i p).poll c).work =
        2 * (w'.move i p).load + c.isSome.toNat + w.accepting.toNat + (!w.ended).toNat := by
      rw [← ha, ← he]
      rfl
    have hbit : c.isSome.toNat ≤ 1 := Bool.toNat_le _
    rw [hw, World.work]
    omega
  unfold pollStep
  split
  case h_1 hp =>
    split
    · exact hmoved rfl rfl rfl (by rw [hp]; simp only [Phase.left]; omega)
    · exact hmoved rfl rfl rfl (by rw [hp]; simp only [Phase.left]; omega)
  case h_2 hp => exact hmoved rfl rfl rfl (by rw [hp]; simp [Phase.left])
  case h_3 held l wanted hp =>
    split
    case isTrue hheld =>
      have hcurrent := hcan ⟨l, by rw [hp]; rfl, hheld⟩
      have hw : (w.poll none).work + 1 = w.work := by
        simp only [World.work, hcurrent, World.poll, World.load, Option.isSome, Bool.toNat_true, Bool.toNat_false]
        omega
      omega
    case isFalse => exact hmoved rfl rfl rfl (by rw [hp]; simp only [Phase.left, List.length_cons]; omega)
  case h_4 hp => exact hmoved rfl rfl rfl (by rw [hp]; simp only [Phase.left, List.length_nil]; omega)
  case h_5 hp => exact hmoved rfl rfl rfl (by rw [hp]; simp only [Phase.left]; omega)
  case h_6 hp =>
    split
    · exact hmoved (v := { w.runs i with panicked := true }) rfl rfl rfl (by rw [hp]; simp [Phase.left])
    · exact hmoved (v := w.runs i) rfl rfl rfl (by rw [hp]; simp [Phase.left])
  case h_7 hp => exact hmoved (v := { w with poisoned := true }) rfl rfl rfl (by rw [hp]; simp [Phase.left])
  case h_8 hp => exact hmoved (v := w.reply i _) rfl rfl rfl (by rw [hp]; simp [Phase.left])
  case h_9 hp => exact hmoved (v := w.release _) rfl rfl rfl (by rw [hp]; simp [Phase.left])
  case h_10 =>
    -- no other phase is in the hands of the worker
    cases hp : s.phase with
    | acquiring held wanted => cases wanted <;> simp_all
    | working held left => cases left <;> simp_all
    | _ => simp_all [Phase.running]

theorem pollStep_blocked {i : Nat} {s : Submit} {w : World} (hb : Blocked s w) (hc : w.current = none) :
    pollStep i s w = w := by
  obtain ⟨l, hw, hheld⟩ := hb
  cases hp : s.phase with
  | acquiring held wanted =>
    rw [hp] at hw
    cases wanted with
    | nil => nomatch hw
    | cons l' wanted =>
      obtain rfl : l' = l := Option.some.inj hw
      rw [pollStep, hp]
      dsimp only
      rw [if_pos hheld, World.poll, ← hc]
  | _ =>
    rw [hp] at hw
    cases hw

/-- Each step of the worker that does something leaves less for it to do. -/
theorem worker_lowers {w : World} {e : Event} (h : Inv w) (he : e.isWorker = true) :
    step w e = w ∨ (step w e).work < w.work := by
  cases e with
  | submit r => nomatch he
  | caller i weak => nomatch he
  | shutdown => nomatch he
  | receive =>
    unfold step
    dsimp only
    split
    case h_1 i rest ha hc hch =>
      have hmem : i ∈ w.channel := by
        rw [hch]
        exact List.mem_cons_self
      cases hs : w.submits[i]? with
      | none => exact absurd hmem (h.unknown i hs).channel
      | some s =>
        have hq := (h.submits i s hs).channel.1 hmem
        have hload := load_move .fresh hs
        rw [hq] at hload
        simp only [Phase.left] at hload
        refine Or.inr ?_
        change 2 * (w.move i .fresh).load + w.current.isSome.toNat + w.accepting.toNat + (!w.ended).toNat < w.work
        rw [World.work]
        omega
    case h_2 => exact Or.inl rfl
  | close =>
    unfold step
    dsimp only
    split
    case isTrue hc =>
      refine Or.inr ?_
      change 2 * w.load + w.current.isSome.toNat + 0 + (!w.ended).toNat < w.work
      rw [World.work, hc.1, Bool.toNat_true]
      omega
    case isFalse => exact Or.inl rfl
  | stop =>
    unfold step
    dsimp only
    split
    case isTrue hc =>
      cases hended : w.ended with
      | true =>
        refine Or.inl ?_
        rw [← hended]
      | false =>
        refine Or.inr ?_
        change 2 * w.load + w.current.isSome.toNat + w.accepting.toNat + 0 < w.work
        rw [World.work, hended, Bool.not_false, Bool.toNat_true]
        omega
    case isFalse => exact Or.inl rfl
  | turn i =>
    unfold step
    dsimp only
    split
    case isTrue hcurrent =>
      split
      case h_1 s hs =>
        split
        case isTrue hrun =>
          by_cases hb : Blocked s w
          · rcases hcurrent with hn | hi
            · exact Or.inl (pollStep_blocked hb hn)
            · exact Or.inr (pollStep_lowers hs hrun fun _ => hi)
          · exact Or.inr (pollStep_lowers hs hrun fun hb' => absurd hb' hb)
        case isFalse => exact Or.inl rfl
      case h_2 => exact Or.inl rfl
    case isFalse => exact Or.inl rfl

def Idle (w : World) : Prop := ∀ e, e.isWorker = true → step w e = w

theorem turn_eq {w : World} {i : Nat} {s : Submit} (hs : w.submits[i]? = some s) (hrun : s.phase.running = true)
    (hc : w.current = none ∨ w.current = some i) : step w (.turn i) = pollStep i s w := by
  simp only [step, hc, if_true, hs, hrun]

theorem idle_current {w : World} (h : Inv w) (hidle : Idle w) : w.current = none := by
  cases hc : w.current with
  | none => rfl
  | some i =>
    cases hs : w.submits[i]? with
    | none => exact absurd hc (h.unknown i hs).current
    | some s =>
      have hrun := (h.submits i s hs).running hc
      have hlt := pollStep_lowers hs hrun fun _ => hc
      rw [← turn_eq hs hrun (Or.inr hc), hidle _ rfl] at hlt
      exact absurd hlt (Nat.lt_irrefl _)

theorem idle_blocked {w : World} (h : Inv w) (hidle : Idle w) {i : Nat} {s : Submit} (hs : w.submits[i]? = some s)
    (hrun : s.phase.running = true) : Blocked s w := by
  by_contra hb
  have hlt := pollStep_lowers hs hrun fun hb' => absurd hb' hb
  rw [← turn_eq hs hrun (Or.inl (idle_current h hidle)), hidle _ rfl] at hlt
  exact absurd hlt (Nat.lt_irrefl _)

theorem holds_of_isHeld {w : World} {l : Lock} (hl : isHeld l w = true) : ∃ i, w.holds i l := by
  obtain ⟨s, hmem, hheld⟩ := List.any_eq_true.1 hl
  obtain ⟨i, hs⟩ := List.mem_iff_getElem?.1 hmem
  exact ⟨i, s, hs, by simpa using hheld⟩

theorem running_of_held {p : Phase} {l : Lock} (h : l ∈ p.held) : p.running = true := by
  cases p with
  | acquiring held wanted => rfl
  | working held left => rfl
  | _ => nomatch h

theorem idle_running {w : World} (h : Inv w) (hidle : Idle w) {i : Nat} {s : Submit} (hs : w.submits[i]? = some s) :
    s.phase.running = false := by
  cases hrun : s.phase.running with
  | false => rfl
  | true =>
    obtain ⟨l, -, hl⟩ := idle_blocked h hidle hs hrun
    obtain ⟨j, hj⟩ := holds_of_isHeld hl
    -- behind the command stands one that waits for nobody, and yet it has a lock
    have hrank : ∀ l, rank l ≤ 1 := fun l => by cases l <;> decide
    obtain ⟨k, l', ⟨t, ht, hheld⟩, hfree⟩ := LockOrder.exists_free (ascending h) hrank hj
    obtain ⟨m, hm, hisheld⟩ := idle_blocked h hidle ht (running_of_held hheld)
    obtain ⟨j', hj'⟩ := holds_of_isHeld hisheld
    refine absurd ⟨m, ?_, hj'⟩ (hfree j')
    rw [World.wants, ht]
    exact hm

theorem idle_channel {w : World} (h : Inv w) (hidle : Idle w) : w.channel = [] := by
  cases hch : w.channel with
  | nil => rfl
  | cons i rest =>
    have ha : w.accepting = true := by
      cases ha : w.accepting with
      | true => rfl
      | false =>
        rw [(h.closed ha).2] at hch
        nomatch hch
    have hstep := hidle .receive rfl
    simp only [step, ha, idle_current h hidle, hch] at hstep
    have hrest : rest = w.channel := congrArg World.channel hstep
    rw [hch] at hrest
    exact absurd hrest (List.cons_ne_self i rest).symm

theorem idle_answered {w : World} (h : Inv w) (hidle : Idle w) {i : Nat} {s : Submit} (hs : w.submits[i]? = some s)
    (ha : s.phase.accepted = true) : w.answers i = 1 := by
  have hrun := idle_running h hidle hs
  have hsound := h.submits i s hs
  have hqueued : s.phase ≠ .queued := fun hq => by
    have hmem := hsound.channel.2 hq
    rw [idle_channel h hidle] at hmem
    nomatch hmem
  have hanswers := hsound.answers
  cases hp : s.phase with
  | done =>
    rw [hp] at hanswers
    exact hanswers
  | queued => exact absurd hp hqueued
  | _ => simp_all [Phase.accepted, Phase.running]

end Arveil.Executor
