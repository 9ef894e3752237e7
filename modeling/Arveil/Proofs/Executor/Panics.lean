import Arveil.Proofs.Executor.Worker

/-! The counters are exact, and nothing runs after a panic, where a command that panics is the only
one sent and none is sent after it. -/

namespace Arveil.Executor

/-- The worker is about to run a command into its panic. -/
def panicsAt (w : World) (i : Nat) : Bool :=
  match w.submits[i]? with
  | some ⟨r, .working _ 0⟩ => r.panics
  | _ => false

/-- No other command is sent and still has work to do. -/
def alone (w : World) (i : Nat) : Bool :=
  (List.range w.submits.length).all fun j => j = i || !(w.submits[j]?.any fun s => s.phase.unfinished)

def sends (w : World) (i : Nat) : Bool := w.submits[i]?.any fun s => s.phase = .sending && w.sender && !w.ended

/-- A command panics alone, and none is sent to a session in which one has panicked. -/
def PanicsAlone (w : World) : Event → Prop
  | .turn i => (w.current = none ∨ w.current = some i) → panicsAt w i = true → alone w i = true
  | .caller i _ => sends w i = true → w.panicked = false
  | _ => True

instance (w : World) (e : Event) : Decidable (PanicsAlone w e) := by
  cases e <;> unfold PanicsAlone <;> infer_instance

theorem of_alone {w : World} {i j : Nat} {s : Submit} (h : alone w i = true) (hs : w.submits[j]? = some s) (hj : j ≠ i) :
    s.phase.unfinished = false := by
  have hlt := (List.getElem?_eq_some_iff.1 hs).1
  have hall := List.all_eq_true.1 h j (List.mem_range.2 hlt)
  simpa [hj, hs] using hall

/-- The invariant of the runs in which commands panic alone. -/
structure Exact (w : World) : Prop where
  inv : Inv w
  counts : ∀ k, w.active k = w.slots k
  poisoned : w.poisoned = true → w.panicked = true
  halted : w.panicked = true → ∀ (i : Nat) (s : Submit), w.submits[i]? = some s → s.phase.unfinished = false
  flagged : ∀ (i : Nat) (s : Submit), w.submits[i]? = some s → s.phase = .panicked → w.panicked = true
  admitted : ∀ (i : Nat) (s : Submit), w.submits[i]? = some s → s.phase ≠ .turnedAway
  silent : ∀ run ∈ w.ran, run.2 = false

theorem counts_of_balanced {w w' : World} (hb : Balanced w w') (h : ∀ k, w.active k = w.slots k) (k : Admission) :
    w'.active k = w'.slots k := by
  have := hb k
  have := h k
  omega

theorem submitStep_flags (i : Nat) (weak : Bool) (s : Submit) (w : World) :
    (submitStep i weak s w).poisoned = w.poisoned ∧ (submitStep i weak s w).panicked = w.panicked ∧
      (submitStep i weak s w).ran = w.ran := by
  unfold submitStep
  dsimp only
  split
  case h_1 =>
    split <;> exact ⟨rfl, rfl, rfl⟩
  case h_2 => exact ⟨rfl, rfl, rfl⟩
  case h_3 =>
    split
    · exact ⟨rfl, rfl, rfl⟩
    · split <;> exact ⟨rfl, rfl, rfl⟩
  case h_4 =>
    split <;> exact ⟨rfl, rfl, rfl⟩
  case h_5 => exact ⟨rfl, rfl, rfl⟩
  case h_6 => exact ⟨rfl, rfl, rfl⟩

theorem submitStep_phase {i : Nat} {weak : Bool} {s : Submit} {w : World} (hs : w.submits[i]? = some s) :
    ∀ s', (submitStep i weak s w).submits[i]? = some s' →
      s' = s ∨ s'.phase.accepted = false ∨ s'.phase = .queued ∧ sends w i = true := by
  have hmoved : ∀ {p : Phase} {v : World}, v.submits = w.submits → p.accepted = false →
      ∀ s', (v.move i p).submits[i]? = some s' →
        s' = s ∨ s'.phase.accepted = false ∨ s'.phase = .queued ∧ sends w i = true :=
    fun hw hp => forall_moved (hw ▸ hs) (Or.inr (Or.inl hp))
  unfold submitStep
  dsimp only
  split
  case h_1 =>
    split <;> exact hmoved rfl rfl
  case h_2 => exact hmoved rfl rfl
  case h_3 =>
    split
    · exact hmoved rfl rfl
    · split
      · exact hmoved (v := w.setActive _ _) rfl rfl
      · exact hmoved rfl rfl
  case h_4 hp =>
    split
    case isTrue hopen =>
      refine forall_moved hs (Or.inr (Or.inr ⟨rfl, ?_⟩))
      simp [sends, hs, hp, hopen]
    case isFalse => exact hmoved rfl rfl
  case h_5 => exact hmoved (v := w.release _) rfl rfl
  case h_6 => exact fun s' hs' => Or.inl (Option.some.inj (hs.symm.trans hs')).symm

theorem not_unfinished {p : Phase} (h : p.accepted = false) :
    p.unfinished = false ∧ p ≠ .turnedAway ∧ p ≠ .panicked := by
  cases p <;> simp_all [Phase.accepted, Phase.unfinished]

theorem exact_caller {w : World} (i : Nat) (weak : Bool) (hc : PanicsAlone w (.caller i weak)) (h : Exact w) :
    Exact (step w (.caller i weak)) := by
  have hinv := inv_step w (.caller i weak) h.inv
  unfold step at hinv ⊢
  dsimp only at hinv ⊢
  split
  case h_1 s hs =>
    rw [hs] at hinv
    obtain ⟨hpoisoned, hpanicked, hran⟩ := submitStep_flags i weak s w
    have hother := (submitStep_beside i weak s w).submits
    refine ⟨hinv, counts_of_balanced (submitStep_balanced hs h.inv.covered) h.counts, ?_, fun hp j t ht => ?_,
      fun j t ht hp => ?_, fun j t ht => ?_, ?_⟩
    · rw [hpoisoned, hpanicked]
      exact h.poisoned
    · rw [hpanicked] at hp
      by_cases hj : j = i
      · subst hj
        rcases submitStep_phase hs t ht with rfl | ha | ⟨-, hsends⟩
        · exact h.halted hp j t hs
        · exact (not_unfinished ha).1
        · rw [hc hsends] at hp
          nomatch hp
      · exact h.halted hp j t (by rwa [hother j hj] at ht)
    · rw [hpanicked]
      by_cases hj : j = i
      · subst hj
        rcases submitStep_phase hs t ht with rfl | ha | ⟨hq, -⟩
        · exact h.flagged j t hs hp
        · exact absurd hp (not_unfinished ha).2.2
        · rw [hq] at hp
          nomatch hp
      · exact h.flagged j t (by rwa [hother j hj] at ht) hp
    · by_cases hj : j = i
      · subst hj
        rcases submitStep_phase hs t ht with rfl | ha | ⟨hq, -⟩
        · exact h.admitted j t hs
        · exact (not_unfinished ha).2.1
        · rw [hq]
          nofun
      · exact h.admitted j t (by rwa [hother j hj] at ht)
    · rw [hran]
      exact h.silent
  case h_2 => exact h

theorem pollStep_over {i : Nat} {s : Submit} {w : World} (hs : w.submits[i]? = some s) (hrun : s.phase.running = true)
    (hp : s.phase.unfinished = false) :
    (pollStep i s w).ran = w.ran ∧ (pollStep i s w).panicked = w.panicked ∧
      ∀ s', (pollStep i s w).submits[i]? = some s' →
        s'.phase.unfinished = false ∧ s'.phase ≠ .turnedAway ∧ s'.phase ≠ .panicked := by
  obtain ⟨r, p⟩ := s
  cases p with
  | panicked => exact ⟨rfl, rfl, forall_moved (w := { w with poisoned := true }) hs ⟨rfl, nofun, nofun⟩⟩
  | returned reply => exact ⟨rfl, rfl, forall_moved (w := w.reply i reply) hs ⟨rfl, nofun, nofun⟩⟩
  | replied => exact ⟨rfl, rfl, forall_moved (w := w.release r.command.admission) hs ⟨rfl, nofun, nofun⟩⟩
  | _ => simp_all [Phase.running, Phase.unfinished]

theorem pollStep_poisons {i : Nat} {s : Submit} {w : World} (h : (pollStep i s w).poisoned = true) :
    s.phase = .panicked ∨ w.poisoned = true := by
  unfold pollStep at h
  split at h
  case h_1 | h_3 | h_6 =>
    split at h <;> exact Or.inr h
  case h_7 hp => exact Or.inl hp
  all_goals exact Or.inr h

theorem pollStep_unpoisoned {i : Nat} {s : Submit} {w : World} (hs : w.submits[i]? = some s)
    (hrun : s.phase.running = true) (hp : s.phase.unfinished = true) (haway : s.phase ≠ .turnedAway)
    (hpoisoned : w.poisoned = false) (hpanicked : w.panicked = false) :
    (∀ run ∈ (pollStep i s w).ran, run ∈ w.ran ∨ run.2 = false) ∧ (pollStep i s w).poisoned = false ∧
      ((pollStep i s w).panicked = true → panicsAt w i = true) ∧
      ∀ s', (pollStep i s w).submits[i]? = some s' →
        s'.phase ≠ .turnedAway ∧ ((pollStep i s w).panicked = true → s'.phase.unfinished = false) ∧
          (s'.phase = .panicked → (pollStep i s w).panicked = true) := by
  have hruns : ∀ run ∈ (w.runs i).ran, run ∈ w.ran ∨ run.2 = false := by
    intro run hmem
    rcases List.mem_append.1 hmem with hmem | hmem
    · exact Or.inl hmem
    · rw [List.mem_singleton.1 hmem]
      exact Or.inr hpanicked
  have hnot : ∀ {P : Prop}, w.panicked = true → P := fun ht => absurd (hpanicked.symm.trans ht) (by decide)
  obtain ⟨r, p⟩ := s
  unfold pollStep
  split
  case h_1 =>
    rw [hpoisoned]
    exact ⟨fun _ => Or.inl, hpoisoned, hnot, forall_moved hs ⟨nofun, hnot, nofun⟩⟩
  case h_2 hp => exact absurd hp haway
  case h_3 hp =>
    split
    · refine ⟨fun _ => Or.inl, hpoisoned, hnot, fun s' hs' => ?_⟩
      obtain rfl := Option.some.inj (hs.symm.trans hs')
      refine ⟨haway, hnot, fun he => ?_⟩
      rw [show p = .panicked from he] at hp
      nomatch hp
    · exact ⟨fun _ => Or.inl, hpoisoned, hnot, forall_moved hs ⟨nofun, hnot, nofun⟩⟩
  case h_4 => exact ⟨fun _ => Or.inl, hpoisoned, hnot, forall_moved hs ⟨nofun, hnot, nofun⟩⟩
  case h_5 => exact ⟨hruns, hpoisoned, hnot, forall_moved (w := w.runs i) hs ⟨nofun, hnot, nofun⟩⟩
  case h_6 held hp =>
    obtain rfl : p = .working held 0 := hp
    split
    case isTrue hpanics =>
      refine ⟨hruns, hpoisoned, fun _ => ?_,
        forall_moved (w := { w.runs i with panicked := true }) hs ⟨nofun, fun _ => rfl, fun _ => rfl⟩⟩
      rw [panicsAt, hs]
      exact hpanics
    case isFalse => exact ⟨hruns, hpoisoned, hnot, forall_moved (w := w.runs i) hs ⟨nofun, hnot, nofun⟩⟩
  case h_7 he | h_8 he | h_9 he =>
    rw [he] at hp
    nomatch hp
  case h_10 =>
    refine ⟨fun _ => Or.inl, hpoisoned, hnot, fun s' hs' => ?_⟩
    obtain rfl := Option.some.inj (hs.symm.trans hs')
    refine ⟨haway, hnot, fun he => ?_⟩
    rw [show p = .panicked from he] at hp
    nomatch hp

theorem exact_turn {w : World} (i : Nat) (hc : PanicsAlone w (.turn i)) (h : Exact w) : Exact (step w (.turn i)) := by
  have hinv := inv_step w (.turn i) h.inv
  by_cases hcurrent : w.current = none ∨ w.current = some i
  case neg =>
    simp only [step, hcurrent, if_false]
    exact h
  cases hs : w.submits[i]? with
  | none =>
    simp only [step, hcurrent, if_true, hs]
    exact h
  | some s =>
    cases hrun : s.phase.running with
    | false =>
      simp only [step, hcurrent, if_true, hs, hrun]
      exact h
    | true =>
      rw [turn_eq hs hrun hcurrent] at hinv ⊢
      have hother := (pollStep_beside (s := s) hcurrent).submits
      have hcounts := counts_of_balanced (pollStep_balanced hs h.inv.covered (h.admitted i s hs)) h.counts
      cases hp : s.phase.unfinished with
      | false =>
        obtain ⟨hran, hpanicked, hown⟩ := pollStep_over hs hrun hp
        refine ⟨hinv, hcounts, fun ht => ?_, fun ht j t hj => ?_, fun j t hj ht => ?_, fun j t hj => ?_, hran ▸ h.silent⟩
        · rw [hpanicked]
          rcases pollStep_poisons ht with hp | hp
          · exact h.flagged i s hs hp
          · exact h.poisoned hp
        · rw [hpanicked] at ht
          by_cases he : j = i
          · subst he
            exact (hown t hj).1
          · exact h.halted ht j t (by rwa [hother j he] at hj)
        · rw [hpanicked]
          by_cases he : j = i
          · subst he
            exact absurd ht (hown t hj).2.2
          · exact h.flagged j t (by rwa [hother j he] at hj) ht
        · by_cases he : j = i
          · subst he
            exact (hown t hj).2.1
          · exact h.admitted j t (by rwa [hother j he] at hj)
      | true =>
        have hclear : w.panicked = false := by
          cases hpanicked : w.panicked with
          | false => rfl
          | true =>
            rw [h.halted hpanicked i s hs] at hp
            cases hp
        have hflag : w.poisoned = false := by
          cases hpoisoned : w.poisoned with
          | false => rfl
          | true =>
            rw [h.poisoned hpoisoned] at hclear
            cases hclear
        obtain ⟨hran, hpoisoned, hpanics, hown⟩ := pollStep_unpoisoned hs hrun hp (h.admitted i s hs) hflag hclear
        refine ⟨hinv, hcounts, fun ht => ?_, fun ht j t hj => ?_, fun j t hj ht => ?_, fun j t hj => ?_,
          fun run hmem => ?_⟩
        · rw [hpoisoned] at ht
          cases ht
        · by_cases he : j = i
          · subst he
            exact (hown t hj).2.1 ht
          · rw [hother j he] at hj
            exact of_alone (hc hcurrent (hpanics ht)) hj he
        · by_cases he : j = i
          · subst he
            exact (hown t hj).2.2 ht
          · rw [hother j he] at hj
            rw [h.flagged j t hj ht] at hclear
            cases hclear
        · by_cases he : j = i
          · subst he
            exact (hown t hj).1
          · exact h.admitted j t (by rwa [hother j he] at hj)
        · exact (hran run hmem).elim (h.silent run) id

theorem exact_start : Exact start := by
  have hnone : ∀ (i : Nat) (s : Submit), start.submits[i]? ≠ some s := by simp [start]
  refine ⟨inv_start, fun _ => rfl, fun h => ?_, fun _ i s hs => ?_, fun i s hs => ?_, fun i s hs => ?_, fun _ hr => ?_⟩
  · exact h
  · exact absurd hs (hnone i s)
  · exact absurd hs (hnone i s)
  · exact absurd hs (hnone i s)
  · exact absurd hr List.not_mem_nil

theorem exact_submit {w : World} (r : Request) (h : Exact w) : Exact (step w (.submit r)) := by
  have hnew : ∀ {i : Nat} {s : Submit}, (step w (.submit r)).submits[i]? = some s →
      w.submits[i]? = some s ∨ s = ⟨r, .checking⟩ := by
    intro i s hs
    rw [show (step w (.submit r)).submits = w.submits ++ [⟨r, .checking⟩] from rfl] at hs
    rcases List.mem_append.1 (List.mem_of_getElem? hs) with - | hmem
    · by_cases hlt : i < w.submits.length
      · exact Or.inl (by rwa [List.getElem?_append_left hlt] at hs)
      · rw [List.getElem?_append_right (by omega)] at hs
        exact Or.inr (List.mem_singleton.1 (List.mem_of_getElem? hs))
    · exact Or.inr (List.mem_singleton.1 hmem)
  refine ⟨inv_submit r h.inv, fun k => ?_, h.poisoned, fun hp i s hs => ?_, fun i s hs hp => ?_, fun i s hs => ?_, h.silent⟩
  · have hslots : (step w (.submit r)).slots k = w.slots k := by
      simp [World.slots, step, Phase.holdsSlot]
    rw [hslots]
    exact h.counts k
  · rcases hnew hs with hs | rfl
    · exact h.halted hp i s hs
    · rfl
  · rcases hnew hs with hs | rfl
    · exact h.flagged i s hs hp
    · cases hp
  · rcases hnew hs with hs | rfl
    · exact h.admitted i s hs
    · intro he
      cases he

theorem exact_receive {w : World} (h : Exact w) : Exact (step w .receive) := by
  have hinv := inv_receive h.inv
  unfold step at hinv ⊢
  dsimp only at hinv ⊢
  split
  case h_1 i rest ha hcur hch =>
    rw [ha, hcur, hch] at hinv
    have hmem : i ∈ w.channel := by
      rw [hch]
      exact List.mem_cons_self
    cases hs : w.submits[i]? with
    | none => exact absurd hmem (h.inv.unknown i hs).channel
    | some s =>
      have hq := (h.inv.submits i s hs).channel.1 hmem
      have hother : ∀ j ≠ i, (w.move i .fresh).submits[j]? = w.submits[j]? := fun j hj => World.move_other _ hj
      have hown := forall_moved (P := fun t => t.phase = .fresh) (p := .fresh) hs rfl
      refine ⟨hinv, counts_of_balanced (balanced_move hs (by rw [hq]; rfl)) h.counts, h.poisoned, fun hp j t ht => ?_,
        fun j t ht hp => ?_, fun j t ht => ?_, h.silent⟩
      · have hover := h.halted hp i s hs
        rw [hq] at hover
        nomatch hover
      · by_cases hj : j = i
        · subst hj
          rw [hown t ht] at hp
          nomatch hp
        · exact h.flagged j t ((hother j hj).symm.trans ht) hp
      · by_cases hj : j = i
        · subst hj
          rw [hown t ht]
          nofun
        · exact h.admitted j t ((hother j hj).symm.trans ht)
  case h_2 => exact h

theorem exact_step (w : World) (e : Event) (hc : PanicsAlone w e) (h : Exact w) : Exact (step w e) := by
  cases e with
  | submit r => exact exact_submit r h
  | caller i weak => exact exact_caller i weak hc h
  | shutdown => exact { h with inv := inv_step w .shutdown h.inv }
  | receive => exact exact_receive h
  | close =>
    have hinv := inv_step w .close h.inv
    unfold step at hinv ⊢
    dsimp only at hinv ⊢
    split
    case isTrue hif =>
      rw [if_pos hif] at hinv
      exact { h with inv := hinv }
    case isFalse => exact h
  | stop =>
    have hinv := inv_step w .stop h.inv
    unfold step at hinv ⊢
    dsimp only at hinv ⊢
    split
    case isTrue hif =>
      rw [if_pos hif] at hinv
      exact { h with inv := hinv }
    case isFalse => exact h
  | turn i => exact exact_turn i hc h

end Arveil.Executor
