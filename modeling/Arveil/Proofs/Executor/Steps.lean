import Mathlib.Data.List.Count
import Arveil.Spec.Executor

/-! A step is about one submit: it leaves what the others may see as it was. `Inv` is what holds
of each of them in any order of steps. -/

namespace Arveil.Executor

/-- Admitted, and neither finished nor refused. -/
def Phase.holdsSlot : Phase → Bool
  | .checking | .loading | .swapping _ | .refused _ | .done => false
  | _ => true

/-- `submit` returned `Ok`. -/
def Phase.accepted : Phase → Bool
  | .checking | .loading | .swapping _ | .sending | .releasing | .refused _ => false
  | _ => true

def Phase.unfinished : Phase → Bool
  | .queued | .fresh | .turnedAway | .acquiring .. | .working .. => true
  | _ => false

def Phase.answered : Phase → Bool
  | .replied | .done => true
  | _ => false

def Phase.begun : Phase → Bool
  | .working .. | .panicked | .returned _ | .replied | .done => true
  | _ => false

/-- Left only within the poll that led to it. -/
def Phase.inPoll : Phase → Bool
  | .turnedAway | .panicked | .returned _ | .replied => true
  | _ => false

def World.answers (w : World) (i : Nat) : Nat := (w.replies.map Prod.fst).count i

def World.slots (k : Admission) (w : World) : Nat :=
  w.submits.countP fun s => s.request.command.admission = k ∧ s.phase.holdsSlot = true

namespace World

variable {w : World} {i j : Nat}

@[simp] theorem move_active (p : Phase) : (w.move i p).active = w.active := rfl

theorem setActive_active (k k' : Admission) (n : Nat) :
    (w.setActive k n).active k' = if k' = k then n else w.active k' := Function.update_apply _ _ _ _

theorem move_same {s : Submit} (p : Phase) (hs : w.submits[i]? = some s) :
    (w.move i p).submits[i]? = some { s with phase := p } := by
  simp [move, hs]

theorem move_other (p : Phase) (hj : j ≠ i) : (w.move i p).submits[j]? = w.submits[j]? := by
  simp [move, hj.symm]

@[simp] theorem answers_reply (r : Reply) : (w.reply i r).answers j = w.answers j + if i = j then 1 else 0 := by
  simp [answers, reply, List.count_cons]

@[simp] theorem move_length (p : Phase) : (w.move i p).submits.length = w.submits.length := by
  simp [move]

end World

/-- What a step of submit `i` leaves to the others. -/
structure Beside (i : Nat) (w w' : World) : Prop where
  length : w'.submits.length = w.submits.length
  submits : ∀ j ≠ i, w'.submits[j]? = w.submits[j]?
  channel : ∀ j ≠ i, j ∈ w'.channel ↔ j ∈ w.channel
  answers : ∀ j ≠ i, w'.answers j = w.answers j
  ran : ∀ j ≠ i, ∀ late, (j, late) ∈ w'.ran → (j, late) ∈ w.ran
  current : w'.current = w.current ∨ ((w.current = none ∨ w.current = some i) ∧ (w'.current = none ∨ w'.current = some i))
  sender : w'.sender = w.sender
  accepting : w'.accepting = w.accepting
  ended : w'.ended = w.ended

theorem beside_refl (i : Nat) (w : World) : Beside i w w :=
  ⟨rfl, fun _ _ => rfl, fun _ _ => Iff.rfl, fun _ _ => rfl, fun _ _ _ h => h, Or.inl rfl, rfl, rfl, rfl⟩

theorem beside_move (i : Nat) (p : Phase) (w : World) : Beside i w (w.move i p) :=
  ⟨World.move_length p, fun _ hj => World.move_other p hj, fun _ _ => Iff.rfl, fun _ _ => rfl, fun _ _ _ h => h,
    Or.inl rfl, rfl, rfl, rfl⟩

theorem Beside.trans {i : Nat} {w w' w'' : World} (h : Beside i w w') (h' : Beside i w' w'') : Beside i w w'' where
  length := h'.length.trans h.length
  submits j hj := (h'.submits j hj).trans (h.submits j hj)
  channel j hj := (h'.channel j hj).trans (h.channel j hj)
  answers j hj := (h'.answers j hj).trans (h.answers j hj)
  ran j hj late hl := h.ran j hj late (h'.ran j hj late hl)
  current := by
    rcases h.current with he | ⟨h₁, h₂⟩
    · rw [← he]
      exact h'.current
    · rcases h'.current with he | ⟨-, h₃⟩
      · exact Or.inr ⟨h₁, he ▸ h₂⟩
      · exact Or.inr ⟨h₁, h₃⟩
  sender := h'.sender.trans h.sender
  accepting := h'.accepting.trans h.accepting
  ended := h'.ended.trans h.ended

theorem beside_poll {i : Nat} {w : World} {c : Option Nat} (h : w.current = none ∨ w.current = some i)
    (hc : c = none ∨ c = some i) : Beside i w (w.poll c) :=
  { beside_refl i w with current := Or.inr ⟨h, hc⟩ }

theorem beside_active (i : Nat) (k : Admission) (n : Nat) (w : World) : Beside i w (w.setActive k n) :=
  { beside_refl i w with }

theorem beside_reply (i : Nat) (r : Reply) (w : World) : Beside i w (w.reply i r) :=
  { beside_refl i w with answers := fun j hj => by simp [hj.symm] }

theorem beside_runs (i : Nat) (w : World) : Beside i w (w.runs i) :=
  { beside_refl i w with
    ran := fun j hj late h => by
      rcases List.mem_append.1 h with h | h
      · exact h
      · exact absurd (Prod.mk.inj (List.mem_singleton.1 h)).1 hj }

theorem submitStep_beside (i : Nat) (weak : Bool) (s : Submit) (w : World) : Beside i w (submitStep i weak s w) := by
  unfold submitStep
  dsimp only
  split
  case h_1 =>
    split <;> exact beside_move i _ w
  case h_2 => exact beside_move i _ w
  case h_3 =>
    split
    · exact beside_move i _ w
    · split
      · exact (beside_active i _ _ w).trans (beside_move i _ _)
      · exact beside_move i _ w
  case h_4 =>
    split
    · refine { beside_move i .queued w with channel := fun j hj => ?_ }
      simp [hj]
    · exact beside_move i _ w
  case h_5 => exact (beside_active i _ _ w).trans (beside_move i _ _)
  case h_6 => exact beside_refl i w

theorem pollStep_beside {i : Nat} {s : Submit} {w : World} (hc : w.current = none ∨ w.current = some i) :
    Beside i w (pollStep i s w) := by
  -- a poll ends by setting the command the worker is at
  have hpoll : ∀ {w' : World} {c : Option Nat}, Beside i w w' → w'.current = w.current → c = none ∨ c = some i →
      Beside i w (w'.poll c) := fun h he hn => h.trans (beside_poll (he ▸ hc) hn)
  unfold pollStep
  split
  case h_1 =>
    split <;> exact hpoll (beside_move i _ w) rfl (Or.inr rfl)
  case h_2 => exact hpoll ((beside_reply i _ w).trans (beside_move i _ _)) rfl (Or.inl rfl)
  case h_3 =>
    split
    · exact hpoll (beside_refl i w) rfl (Or.inl rfl)
    · exact hpoll (beside_move i _ w) rfl (Or.inr rfl)
  case h_4 => exact hpoll (beside_move i _ w) rfl (Or.inr rfl)
  case h_5 => exact hpoll ((beside_runs i w).trans (beside_move i _ _)) rfl (Or.inl rfl)
  case h_6 =>
    split
    · have h : Beside i w { w.runs i with panicked := true } := { beside_runs i w with }
      exact hpoll (h.trans (beside_move i _ _)) rfl (Or.inr rfl)
    · exact hpoll ((beside_runs i w).trans (beside_move i _ _)) rfl (Or.inr rfl)
  case h_7 =>
    have h : Beside i w { w with poisoned := true } := { beside_refl i w with }
    exact hpoll (h.trans (beside_move i _ _)) rfl (Or.inr rfl)
  case h_8 => exact hpoll ((beside_reply i _ w).trans (beside_move i _ _)) rfl (Or.inr rfl)
  case h_9 => exact hpoll ((beside_active i _ _ w).trans (beside_move i _ _)) rfl (Or.inl rfl)
  case h_10 => exact beside_refl i w

/-- What holds of submit `i` in any order of steps. -/
structure Sound (w : World) (i : Nat) (s : Submit) : Prop where
  channel : i ∈ w.channel ↔ s.phase = .queued
  answers : w.answers i = if s.phase.answered then 1 else 0
  ran : ∀ late, (i, late) ∈ w.ran → s.phase.begun = true
  inPoll : s.phase.inPoll = true → w.current = some i
  running : w.current = some i → s.phase.running = true
  ended : w.ended = true → s.phase.running = false
  locks : ∀ held wanted, s.phase = .acquiring held wanted → held.reverse ++ wanted = s.request.command.exclusions

/-- Nothing is on record about a place no submit has taken. -/
structure Unknown (w : World) (i : Nat) : Prop where
  channel : i ∉ w.channel
  answers : w.answers i = 0
  ran : ∀ late, (i, late) ∉ w.ran
  current : w.current ≠ some i

structure Inv (w : World) : Prop where
  submits : ∀ i s, w.submits[i]? = some s → Sound w i s
  unknown : ∀ i, w.submits[i]? = none → Unknown w i
  nodup : w.channel.Nodup
  closed : w.accepting = false → w.sender = false ∧ w.channel = []
  ended : w.ended = true → w.accepting = false
  covered : ∀ k, w.slots k ≤ w.active k
  limited : ∀ k, w.active k ≤ k.limit

theorem sound_beside {i j : Nat} {w w' : World} {s : Submit} (hj : j ≠ i) (hb : Beside i w w') (h : Sound w j s) :
    Sound w' j s where
  channel := (hb.channel j hj).trans h.channel
  answers := (hb.answers j hj).trans h.answers
  ran late hl := h.ran late (hb.ran j hj late hl)
  inPoll hp := by
    have hcur := h.inPoll hp
    rcases hb.current with he | ⟨hn | hi, -⟩
    · exact he.trans hcur
    · rw [hn] at hcur
      nomatch hcur
    · exact absurd (Option.some.inj (hcur.symm.trans hi)) hj
  running hc := by
    rcases hb.current with he | ⟨-, hn | hi⟩
    · exact h.running (he ▸ hc)
    · rw [hn] at hc
      nomatch hc
    · exact absurd (Option.some.inj (hc.symm.trans hi)) hj
  ended he := h.ended (hb.ended ▸ he)
  locks := h.locks

theorem unknown_beside {i j : Nat} {w w' : World} (hj : j ≠ i) (hb : Beside i w w') (h : Unknown w j) : Unknown w' j where
  channel hc := h.channel ((hb.channel j hj).1 hc)
  answers := (hb.answers j hj).trans h.answers
  ran late hl := h.ran late (hb.ran j hj late hl)
  current hc := by
    rcases hb.current with he | ⟨-, hn | hi⟩
    · exact h.current (he ▸ hc)
    · rw [hn] at hc
      nomatch hc
    · exact hj (Option.some.inj (hc.symm.trans hi))

theorem inv_of_beside {i : Nat} {s : Submit} {w w' : World} (h : Inv w) (hs : w.submits[i]? = some s) (hb : Beside i w w')
    (hown : ∀ s', w'.submits[i]? = some s' → Sound w' i s') (hchannel : w'.channel.Nodup)
    (hclosed : w'.channel = w.channel ∨ w.accepting = true) (hcovered : ∀ k, w'.slots k ≤ w'.active k)
    (hlimited : ∀ k, w'.active k ≤ k.limit) : Inv w' where
  submits j t ht := by
    by_cases hj : j = i
    · subst hj
      exact hown t ht
    · exact sound_beside hj hb (h.submits j t (by rwa [hb.submits j hj] at ht))
  unknown j ht := by
    have hj : j ≠ i := by
      rintro rfl
      have hlt := (List.getElem?_eq_some_iff.1 hs).1
      have := hb.length
      rw [List.getElem?_eq_none_iff] at ht
      omega
    exact unknown_beside hj hb (h.unknown j (by rwa [hb.submits j hj] at ht))
  nodup := hchannel
  closed ha := by
    rw [hb.accepting] at ha
    rcases hclosed with he | ht
    · rw [hb.sender, he]
      exact h.closed ha
    · rw [ha] at ht
      nomatch ht
  ended he := hb.accepting.trans (h.ended (hb.ended ▸ he))
  covered := hcovered
  limited := hlimited

end Arveil.Executor
