import Arveil.Proofs.Executor.Steps

/-! The counters of the admission. A step changes a counter by exactly the slots it takes or gives
back, so no kind of command exceeds its limit. -/

namespace Arveil.Executor

def Submit.takes (s : Submit) (k : Admission) (p : Phase) : Nat :=
  if s.request.command.admission = k ∧ p.holdsSlot = true then 1 else 0

theorem slots_move {i : Nat} {s : Submit} {w : World} (p : Phase) (hs : w.submits[i]? = some s) (k : Admission) :
    (w.move i p).slots k + s.takes k s.phase = w.slots k + s.takes k p := by
  obtain ⟨hi, rfl⟩ := List.getElem?_eq_some_iff.1 hs
  have hset : (w.move i p).submits = w.submits.set i { w.submits[i] with phase := p } := by
    simp [World.move, List.modify_eq_set_getElem?, hs]
  have hle : (if (w.submits[i].request.command.admission = k ∧ w.submits[i].phase.holdsSlot = true) then 1 else 0) ≤
      w.slots k := by
    split
    case isTrue hp => exact List.countP_pos_iff.2 ⟨_, List.getElem_mem hi, by simpa using hp⟩
    case isFalse => exact Nat.zero_le _
  unfold World.slots Submit.takes at *
  rw [hset, List.countP_set hi]
  simp only [decide_eq_true_eq]
  omega

/-- A step takes as many slots as it counts. -/
def Balanced (w w' : World) : Prop := ∀ k, w'.slots k + w.active k = w.slots k + w'.active k

theorem balanced_move {i : Nat} {s : Submit} {w : World} {p : Phase} (hs : w.submits[i]? = some s)
    (hp : s.phase.holdsSlot = p.holdsSlot) : Balanced w (w.move i p) := by
  intro k
  have hmove := slots_move p hs k
  have htakes : s.takes k s.phase = s.takes k p := by simp only [Submit.takes, hp]
  rw [World.move_active]
  omega

theorem balanced_setActive {i n : Nat} {s : Submit} {w : World} {p : Phase} (hs : w.submits[i]? = some s)
    (hn : n + s.phase.holdsSlot.toNat = w.active s.request.command.admission + p.holdsSlot.toNat) :
    Balanced w ((w.setActive s.request.command.admission n).move i p) := by
  intro k
  have hmove := slots_move (w := w.setActive s.request.command.admission n) p hs k
  have hslots : (w.setActive s.request.command.admission n).slots k = w.slots k := rfl
  rw [hslots] at hmove
  have htakes : ∀ q : Phase, s.takes k q = if s.request.command.admission = k then q.holdsSlot.toNat else 0 := by
    intro q
    cases hq : q.holdsSlot <;> simp [Submit.takes, hq]
  rw [htakes, htakes] at hmove
  rw [World.move_active, World.setActive_active]
  by_cases hk : s.request.command.admission = k
  · subst hk
    rw [if_pos rfl, if_pos rfl] at hmove
    rw [if_pos rfl]
    omega
  · rw [if_neg hk, if_neg hk] at hmove
    rw [if_neg fun he => hk he.symm]
    omega

theorem active_pos {i : Nat} {s : Submit} {w : World} (hs : w.submits[i]? = some s)
    (hcovered : ∀ k, w.slots k ≤ w.active k) (hold : s.phase.holdsSlot = true) :
    0 < w.active s.request.command.admission := by
  refine Nat.lt_of_lt_of_le ?_ (hcovered _)
  exact List.countP_pos_iff.2 ⟨s, List.mem_of_getElem? hs, by simpa using hold⟩

theorem balanced_release {i : Nat} {s : Submit} {w : World} {p : Phase} (hs : w.submits[i]? = some s)
    (hcovered : ∀ k, w.slots k ≤ w.active k) (hold : s.phase.holdsSlot = true) (hnew : p.holdsSlot = false) :
    Balanced w ((w.release s.request.command.admission).move i p) := by
  have hpos := active_pos hs hcovered hold
  refine balanced_setActive hs ?_
  rw [hold, hnew]
  simp only [Bool.toNat_true, Bool.toNat_false]
  omega

theorem submitStep_balanced {i : Nat} {weak : Bool} {s : Submit} {w : World} (hs : w.submits[i]? = some s)
    (hcovered : ∀ k, w.slots k ≤ w.active k) : Balanced w (submitStep i weak s w) := by
  unfold submitStep
  dsimp only
  split
  case h_1 hp =>
    split <;> exact balanced_move hs (by rw [hp]; rfl)
  case h_2 hp => exact balanced_move hs (by rw [hp]; rfl)
  case h_3 hp =>
    split
    · exact balanced_move hs (by rw [hp]; rfl)
    · split
      case isTrue hswap =>
        refine balanced_setActive hs ?_
        rw [hp, hswap.1]
        rfl
      case isFalse => exact balanced_move hs (by rw [hp]; rfl)
  case h_4 hp =>
    split
    · exact balanced_move hs (by rw [hp]; rfl)
    · exact balanced_move hs (by rw [hp]; rfl)
  case h_5 hp => exact balanced_release hs hcovered (by rw [hp]; rfl) rfl
  case h_6 => exact fun _ => rfl

/-- Only a command that is turned away leaves without its slot. -/
theorem pollStep_balanced {i : Nat} {s : Submit} {w : World} (hs : w.submits[i]? = some s)
    (hcovered : ∀ k, w.slots k ≤ w.active k) (hp : s.phase ≠ .turnedAway) : Balanced w (pollStep i s w) := by
  unfold pollStep
  split
  case h_1 hp =>
    split <;> exact balanced_move hs (by rw [hp]; rfl)
  case h_2 he => exact absurd he hp
  case h_3 hp =>
    split
    · exact fun _ => rfl
    · exact balanced_move hs (by rw [hp]; rfl)
  case h_4 hp => exact balanced_move hs (by rw [hp]; rfl)
  case h_5 hp => exact balanced_move (w := w.runs i) hs (by rw [hp]; rfl)
  case h_6 hp =>
    split
    · exact balanced_move (w := { w.runs i with panicked := true }) hs (by rw [hp]; rfl)
    · exact balanced_move (w := w.runs i) hs (by rw [hp]; rfl)
  case h_7 hp => exact balanced_move (w := { w with poisoned := true }) hs (by rw [hp]; rfl)
  case h_8 hp => exact balanced_move (w := w.reply i _) hs (by rw [hp]; rfl)
  case h_9 hp => exact balanced_release hs hcovered (by rw [hp]; rfl) rfl
  case h_10 => exact fun _ => rfl

theorem turnedAway_slots {i : Nat} {s : Submit} {w : World} (hs : w.submits[i]? = some s) (hp : s.phase = .turnedAway)
    (k : Admission) : (pollStep i s w).slots k ≤ w.slots k ∧ (pollStep i s w).active = w.active := by
  have hmove := slots_move (w := w.reply i .panicked) .done hs k
  have hdone : s.takes k .done = 0 := by simp [Submit.takes, Phase.holdsSlot]
  have hslots : (w.reply i .panicked).slots k = w.slots k := rfl
  rw [pollStep, hp]
  refine ⟨?_, rfl⟩
  change (((w.reply i .panicked).move i .done)).slots k ≤ w.slots k
  omega

theorem covered_of_balanced {w w' : World} (hb : Balanced w w') (h : ∀ k, w.slots k ≤ w.active k) (k : Admission) :
    w'.slots k ≤ w'.active k := by
  have := hb k
  have := h k
  omega

theorem submitStep_limited {i : Nat} {weak : Bool} {s : Submit} {w : World} (h : ∀ k, w.active k ≤ k.limit)
    (k : Admission) : (submitStep i weak s w).active k ≤ k.limit := by
  have hk := h k
  unfold submitStep
  dsimp only
  split
  case h_1 =>
    split <;> exact hk
  case h_2 => exact hk
  case h_3 current hp =>
    split
    case isTrue => exact hk
    case isFalse hlimit =>
      split
      case isTrue =>
        rw [World.move_active, World.setActive_active]
        split
        case isTrue he =>
          subst he
          omega
        case isFalse => exact hk
      case isFalse => exact hk
  case h_4 =>
    split <;> exact hk
  case h_5 =>
    rw [World.move_active, World.release, World.setActive_active]
    split
    case isTrue he =>
      subst he
      omega
    case isFalse => exact hk
  case h_6 => exact hk

theorem pollStep_limited {i : Nat} {s : Submit} {w : World} (h : ∀ k, w.active k ≤ k.limit) (k : Admission) :
    (pollStep i s w).active k ≤ k.limit := by
  have hle : (pollStep i s w).active k ≤ w.active k := by
    unfold pollStep
    split
    case h_1 | h_3 | h_6 =>
      split <;> exact Nat.le_refl _
    case h_9 =>
      change (w.release s.request.command.admission).active k ≤ w.active k
      rw [World.release, World.setActive_active]
      split
      case isTrue he =>
        subst he
        omega
      case isFalse => exact Nat.le_refl _
    all_goals exact Nat.le_refl _
  exact Nat.le_trans hle (h k)

end Arveil.Executor
