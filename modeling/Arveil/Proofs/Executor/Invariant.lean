import Arveil.Proofs.Executor.Slots

/-! Every step keeps the invariant: first for the submit the step is about, by the function that
moves it, then for the executor as a whole. -/

namespace Arveil.Executor

theorem sound_iff_unknown {w : World} {i : Nat} {s : Submit} (hp : s.phase.accepted = false) :
    Sound w i s ↔ Unknown w i := by
  have hfacts : s.phase ≠ .queued ∧ s.phase.answered = false ∧ s.phase.begun = false ∧ s.phase.inPoll = false ∧
      s.phase.running = false ∧ ∀ held wanted, s.phase ≠ .acquiring held wanted := by
    cases hs : s.phase <;> simp_all [Phase.accepted, Phase.answered, Phase.begun, Phase.inPoll, Phase.running]
  obtain ⟨hq, ha, hb, hi, hr, hl⟩ := hfacts
  constructor
  · intro h
    refine ⟨fun hc => hq (h.channel.1 hc), ?_, fun late hl => ?_, fun hc => ?_⟩
    · rw [h.answers, ha]
      rfl
    · rw [h.ran late hl] at hb
      nomatch hb
    · rw [h.running hc] at hr
      nomatch hr
  · intro h
    refine ⟨⟨fun hc => absurd hc h.channel, fun hc => absurd hc hq⟩, ?_, fun late hl => absurd hl (h.ran late),
      fun hp => ?_, fun hc => absurd hc h.current, fun _ => hr, fun held wanted he => absurd he (hl held wanted)⟩
    · rw [h.answers, ha]
      rfl
    · rw [hp] at hi
      nomatch hi

theorem forall_moved {i : Nat} {s : Submit} {w : World} {p : Phase} {P : Submit → Prop} (hs : w.submits[i]? = some s)
    (h : P { s with phase := p }) : ∀ s', (w.move i p).submits[i]? = some s' → P s' := by
  intro s' hs'
  rw [World.move_same p hs] at hs'
  exact Option.some.inj hs' ▸ h

theorem submitStep_sound {i : Nat} {weak : Bool} {s : Submit} {w : World} (hs : w.submits[i]? = some s)
    (h : Sound w i s) :
    ∀ s', (submitStep i weak s w).submits[i]? = some s' → Sound (submitStep i weak s w) i s' := by
  -- every branch but the send stays on the thread of the caller
  have hstay : ∀ {p : Phase} {w' : World}, s.phase.accepted = false → p.accepted = false → w'.submits = w.submits →
      (Unknown w i → Unknown w' i) → ∀ s', (w'.move i p).submits[i]? = some s' → Sound (w'.move i p) i s' := by
    intro p w' hold hnew hw hu
    have hunknown := hu ((sound_iff_unknown hold).1 h)
    refine forall_moved (hw ▸ hs) ((sound_iff_unknown hnew).2 ?_)
    exact ⟨hunknown.channel, hunknown.answers, hunknown.ran, hunknown.current⟩
  have hcounter : ∀ {k : Admission} {n : Nat}, Unknown w i → Unknown (w.setActive k n) i :=
    fun hu => ⟨hu.channel, hu.answers, hu.ran, hu.current⟩
  unfold submitStep
  dsimp only
  split
  case h_1 hp =>
    split <;> exact hstay (by rw [hp]; rfl) rfl rfl id
  case h_2 hp => exact hstay (by rw [hp]; rfl) rfl rfl id
  case h_3 hp =>
    split
    · exact hstay (by rw [hp]; rfl) rfl rfl id
    · split
      · exact hstay (by rw [hp]; rfl) rfl rfl hcounter
      · exact hstay (by rw [hp]; rfl) rfl rfl id
  case h_4 hp =>
    have hu := (sound_iff_unknown (by rw [hp]; rfl)).1 h
    split
    case isTrue hopen =>
      refine forall_moved hs ⟨⟨fun _ => rfl, fun _ => List.mem_append_right _ List.mem_cons_self⟩, hu.answers, ?_, ?_, ?_,
        ?_, ?_⟩
      · exact fun late hl => absurd hl (hu.ran late)
      · exact fun hp => nomatch hp
      · exact fun hc => absurd hc hu.current
      · exact fun _ => rfl
      · exact fun held wanted he => nomatch he
    case isFalse => exact hstay (by rw [hp]; rfl) rfl rfl id
  case h_5 hp => exact hstay (by rw [hp]; rfl) rfl rfl hcounter
  case h_6 =>
    intro s' hs'
    exact Option.some.inj (hs.symm.trans hs') ▸ h

theorem sound_running {w : World} {i : Nat} {r : Request} {p : Phase} (hchannel : i ∉ w.channel) (hended : w.ended = false)
    (hp : p.running = true) (hanswers : w.answers i = if p.answered then 1 else 0)
    (hran : ∀ late, (i, late) ∈ w.ran → p.begun = true) (hpoll : p.inPoll = true → w.current = some i)
    (hlocks : ∀ held wanted, p = .acquiring held wanted → held.reverse ++ wanted = r.command.exclusions) :
    Sound w i ⟨r, p⟩ where
  channel := by
    refine ⟨fun hc => absurd hc hchannel, fun hq => ?_⟩
    rw [show p = .queued from hq] at hp
    nomatch hp
  answers := hanswers
  ran := hran
  inPoll := hpoll
  running _ := hp
  ended he := by
    rw [hended] at he
    nomatch he
  locks := hlocks

theorem sound_done {w : World} {i : Nat} {r : Request} (hchannel : i ∉ w.channel) (hanswers : w.answers i = 1)
    (hcurrent : w.current ≠ some i) : Sound w i ⟨r, .done⟩ where
  channel := ⟨fun hc => absurd hc hchannel, fun hq => nomatch hq⟩
  answers := hanswers
  ran _ _ := rfl
  inPoll hp := nomatch hp
  running hc := absurd hc hcurrent
  ended _ := rfl
  locks _ _ he := nomatch he

theorem pollStep_sound {i : Nat} {s : Submit} {w : World} (hs : w.submits[i]? = some s) (hrun : s.phase.running = true)
    (h : Sound w i s) : ∀ s', (pollStep i s w).submits[i]? = some s' → Sound (pollStep i s w) i s' := by
  obtain ⟨r, p⟩ := s
  have hchannel : i ∉ w.channel := by
    intro hc
    rw [show p = .queued from h.channel.1 hc] at hrun
    nomatch hrun
  have hended : w.ended = false := by
    cases he : w.ended with
    | false => rfl
    | true => exact absurd ((h.ended he).symm.trans hrun) (by decide)
  have hanswers := h.answers
  unfold pollStep
  split
  case h_1 hp =>
    have hran : ∀ late, (i, late) ∉ w.ran := fun late hl => by
      have := h.ran late hl
      rw [hp] at this
      nomatch this
    rw [hp] at hanswers
    split
    · exact forall_moved hs (sound_running hchannel hended rfl hanswers (fun late hl => absurd hl (hran late))
        (fun _ => rfl) fun _ _ he => nomatch he)
    · refine forall_moved hs (sound_running hchannel hended rfl hanswers (fun late hl => absurd hl (hran late))
        (fun hp => nomatch hp) fun held wanted he => ?_)
      obtain ⟨rfl, rfl⟩ := Phase.acquiring.inj he
      rfl
  case h_2 hp =>
    rw [hp] at hanswers
    refine forall_moved hs (sound_done hchannel ?_ fun hc => nomatch hc)
    change (w.reply i .panicked).answers i = 1
    rw [World.answers_reply, hanswers, if_pos rfl]
    rfl
  case h_3 held l wanted hp =>
    have hran : ∀ late, (i, late) ∉ w.ran := fun late hl => by
      have := h.ran late hl
      rw [hp] at this
      nomatch this
    have hlocks := h.locks held (l :: wanted) hp
    obtain rfl : p = .acquiring held (l :: wanted) := hp
    split
    · intro s' hs'
      obtain rfl := Option.some.inj (hs.symm.trans hs')
      exact sound_running hchannel hended rfl hanswers (fun late hl => absurd hl (hran late)) (fun hp => nomatch hp)
        h.locks
    · refine forall_moved hs (sound_running hchannel hended rfl hanswers (fun late hl => absurd hl (hran late))
        (fun hp => nomatch hp) fun held' wanted' he => ?_)
      obtain ⟨rfl, rfl⟩ := Phase.acquiring.inj he
      rw [List.reverse_cons, List.append_assoc]
      exact hlocks
  case h_4 held hp =>
    rw [hp] at hanswers
    exact forall_moved hs (sound_running hchannel hended rfl hanswers (fun _ _ => rfl) (fun hp => nomatch hp)
      fun _ _ he => nomatch he)
  case h_5 held left hp =>
    rw [hp] at hanswers
    exact forall_moved (w := w.runs i) hs (sound_running hchannel hended rfl hanswers (fun _ _ => rfl)
      (fun hp => nomatch hp) fun _ _ he => nomatch he)
  case h_6 held hp =>
    rw [hp] at hanswers
    split
    · exact forall_moved (w := { w.runs i with panicked := true }) hs (sound_running hchannel hended rfl hanswers
        (fun _ _ => rfl) (fun _ => rfl) fun _ _ he => nomatch he)
    · exact forall_moved (w := w.runs i) hs (sound_running hchannel hended rfl hanswers (fun _ _ => rfl) (fun _ => rfl)
        fun _ _ he => nomatch he)
  case h_7 hp =>
    rw [hp] at hanswers
    exact forall_moved (w := { w with poisoned := true }) hs (sound_running hchannel hended rfl hanswers (fun _ _ => rfl)
      (fun _ => rfl) fun _ _ he => nomatch he)
  case h_8 reply hp =>
    rw [hp] at hanswers
    refine forall_moved (w := w.reply i reply) hs (sound_running hchannel hended rfl ?_ (fun _ _ => rfl) (fun _ => rfl)
      fun _ _ he => nomatch he)
    change (w.reply i reply).answers i = 1
    rw [World.answers_reply, hanswers, if_pos rfl]
    rfl
  case h_9 hp =>
    rw [hp] at hanswers
    exact forall_moved (w := w.release r.command.admission) hs (sound_done hchannel hanswers fun hc => nomatch hc)
  case h_10 => exact fun s' hs' => Option.some.inj (hs.symm.trans hs') ▸ h

theorem submitStep_channel (i : Nat) (weak : Bool) (s : Submit) (w : World) :
    (submitStep i weak s w).channel = w.channel ∨
      s.phase = .sending ∧ w.sender = true ∧ (submitStep i weak s w).channel = w.channel ++ [i] := by
  unfold submitStep
  dsimp only
  split
  case h_1 =>
    split <;> exact Or.inl rfl
  case h_2 => exact Or.inl rfl
  case h_3 =>
    split
    · exact Or.inl rfl
    · split <;> exact Or.inl rfl
  case h_4 hp =>
    split
    case isTrue hopen => exact Or.inr ⟨hp, hopen.1, rfl⟩
    case isFalse => exact Or.inl rfl
  case h_5 => exact Or.inl rfl
  case h_6 => exact Or.inl rfl

theorem pollStep_channel (i : Nat) (s : Submit) (w : World) : (pollStep i s w).channel = w.channel := by
  unfold pollStep
  split
  case h_1 | h_3 | h_6 =>
    split <;> rfl
  all_goals rfl

theorem inv_start : Inv start where
  submits _ _ hs := nomatch hs
  unknown _ _ := ⟨fun hc => (nomatch hc), rfl, fun _ hl => (nomatch hl), fun hc => nomatch hc⟩
  nodup := List.nodup_nil
  closed ha := nomatch ha
  ended he := nomatch he
  covered _ := Nat.le_refl 0
  limited _ := Nat.zero_le _

theorem inv_submit {w : World} (r : Request) (h : Inv w) : Inv (step w (.submit r)) where
  submits i s hs := by
    rcases Nat.lt_trichotomy i w.submits.length with hlt | rfl | hgt
    · rw [show (step w (.submit r)).submits = w.submits ++ [⟨r, .checking⟩] from rfl, List.getElem?_append_left hlt] at hs
      have hsound := h.submits i s hs
      exact ⟨hsound.channel, hsound.answers, hsound.ran, hsound.inPoll, hsound.running, hsound.ended, hsound.locks⟩
    · rw [show (step w (.submit r)).submits = w.submits ++ [⟨r, .checking⟩] from rfl, List.getElem?_concat_length] at hs
      obtain rfl := Option.some.inj hs
      have hu := h.unknown w.submits.length (List.getElem?_eq_none (Nat.le_refl _))
      exact (sound_iff_unknown rfl).2 ⟨hu.channel, hu.answers, hu.ran, hu.current⟩
    · have hlen := (List.getElem?_eq_some_iff.1 hs).1
      rw [show (step w (.submit r)).submits = w.submits ++ [⟨r, .checking⟩] from rfl, List.length_append] at hlen
      simp only [List.length_singleton] at hlen
      omega
  unknown i hs := by
    rw [show (step w (.submit r)).submits = w.submits ++ [⟨r, .checking⟩] from rfl, List.getElem?_eq_none_iff,
      List.length_append] at hs
    have hu := h.unknown i (List.getElem?_eq_none (by omega))
    exact ⟨hu.channel, hu.answers, hu.ran, hu.current⟩
  nodup := h.nodup
  closed := h.closed
  ended := h.ended
  covered k := by
    have hslots : (step w (.submit r)).slots k = w.slots k := by
      simp [World.slots, step, Phase.holdsSlot]
    rw [hslots]
    exact h.covered k
  limited := h.limited

theorem inv_caller {w : World} (i : Nat) (weak : Bool) (h : Inv w) : Inv (step w (.caller i weak)) := by
  unfold step
  dsimp only
  split
  case h_1 s hs =>
    have hb := submitStep_beside i weak s w
    have hsound : ∀ s', (submitStep i weak s w).submits[i]? = some s' → Sound (submitStep i weak s w) i s' :=
      submitStep_sound hs (h.submits i s hs)
    have hchannel := submitStep_channel i weak s w
    have hopen : s.phase = .sending → w.sender = true → w.accepting = true := by
      intro _ ho
      cases ha : w.accepting with
      | true => rfl
      | false =>
        rw [(h.closed ha).1] at ho
        nomatch ho
    refine inv_of_beside h hs (submitStep_beside i weak s w) hsound ?_ ?_
      (covered_of_balanced (submitStep_balanced hs h.covered) h.covered) (submitStep_limited h.limited)
    · rcases hchannel with he | ⟨hp, -, he⟩
      · rw [he]
        exact h.nodup
      · have hnot : i ∉ w.channel := fun hc => by
          rw [(h.submits i s hs).channel.1 hc] at hp
          nomatch hp
        rw [he]
        exact List.nodup_append.2 ⟨h.nodup, List.nodup_singleton i, fun a ha b hb hab =>
          hnot (List.mem_singleton.1 hb ▸ hab ▸ ha)⟩
    · exact hchannel.imp_right fun ⟨hp, ho, _⟩ => hopen hp ho
  case h_2 => exact h

theorem inv_turn {w : World} (i : Nat) (h : Inv w) : Inv (step w (.turn i)) := by
  unfold step
  dsimp only
  split
  case isTrue hcurrent =>
    split
    case h_1 s hs =>
      split
      case isTrue hrun =>
        have hcovered : ∀ k, (pollStep i s w).slots k ≤ (pollStep i s w).active k := by
          by_cases hp : s.phase = .turnedAway
          · intro k
            obtain ⟨hle, ha⟩ := turnedAway_slots hs hp k
            rw [ha]
            exact Nat.le_trans hle (h.covered k)
          · exact covered_of_balanced (pollStep_balanced hs h.covered hp) h.covered
        have hchannel := pollStep_channel i s w
        refine inv_of_beside h hs (pollStep_beside hcurrent) (pollStep_sound hs hrun (h.submits i s hs)) ?_
          (Or.inl hchannel) hcovered (pollStep_limited h.limited)
        rw [hchannel]
        exact h.nodup
      case isFalse => exact h
    case h_2 => exact h
  case isFalse => exact h

theorem inv_receive {w : World} (h : Inv w) : Inv (step w .receive) := by
  unfold step
  dsimp only
  split
  case h_1 i rest ha hcur hch =>
    have hmem : i ∈ w.channel := by
      rw [hch]
      exact List.mem_cons_self
    have hnodup := h.nodup
    rw [hch] at hnodup
    obtain ⟨hfirst, hrest⟩ := List.nodup_cons.1 hnodup
    cases hs : w.submits[i]? with
    | none => exact absurd hmem (h.unknown i hs).channel
    | some s =>
      have hsound := h.submits i s hs
      have hq := hsound.channel.1 hmem
      have hanswers := hsound.answers
      rw [hq] at hanswers
      have hb : Beside i w { w.move i .fresh with channel := rest } :=
        { beside_move i .fresh w with
          channel := fun j hj => by
            rw [hch]
            exact ⟨List.mem_cons_of_mem _, fun hm => (List.mem_cons.1 hm).resolve_left hj⟩ }
      have hended : w.ended = false := by
        cases he : w.ended with
        | false => rfl
        | true => exact absurd ((h.ended he).symm.trans ha) (by decide)
      refine inv_of_beside h hs hb (forall_moved (w := w) hs ?_) hrest (Or.inr ha) ?_ h.limited
      · refine sound_running hfirst hended rfl hanswers (fun late hl => ?_) (fun hp => nomatch hp) fun _ _ he => nomatch he
        have := hsound.ran late hl
        rw [hq] at this
        nomatch this
      · exact covered_of_balanced (balanced_move hs (by rw [hq]; rfl)) h.covered
  case h_2 => exact h

theorem inv_step (w : World) (e : Event) (h : Inv w) : Inv (step w e) := by
  cases e with
  | submit r => exact inv_submit r h
  | caller i weak => exact inv_caller i weak h
  | shutdown =>
    refine { h with submits := fun i s hs => ?_, unknown := fun i hs => ?_, closed := fun ha => ⟨rfl, (h.closed ha).2⟩ }
    · have hsound := h.submits i s hs
      exact ⟨hsound.channel, hsound.answers, hsound.ran, hsound.inPoll, hsound.running, hsound.ended, hsound.locks⟩
    · have hu := h.unknown i hs
      exact ⟨hu.channel, hu.answers, hu.ran, hu.current⟩
  | receive => exact inv_receive h
  | close =>
    unfold step
    dsimp only
    split
    case isTrue hc =>
      refine { h with submits := fun i s hs => ?_, unknown := fun i hs => ?_, closed := fun _ => ⟨hc.2.2.2, hc.2.2.1⟩,
                      ended := fun _ => rfl }
      · have hsound := h.submits i s hs
        exact ⟨hsound.channel, hsound.answers, hsound.ran, hsound.inPoll, hsound.running, hsound.ended, hsound.locks⟩
      · have hu := h.unknown i hs
        exact ⟨hu.channel, hu.answers, hu.ran, hu.current⟩
    case isFalse => exact h
  | stop =>
    unfold step
    dsimp only
    split
    case isTrue hc =>
      refine { h with submits := fun i s hs => ?_, unknown := fun i hs => ?_, ended := fun _ => hc.1 }
      · have hsound := h.submits i s hs
        have hidle := List.all_eq_true.1 hc.2.2 s (List.mem_of_getElem? hs)
        exact { hsound with ended := fun _ => by simpa using hidle }
      · have hu := h.unknown i hs
        exact ⟨hu.channel, hu.answers, hu.ran, hu.current⟩
    case isFalse => exact h
  | turn i => exact inv_turn i h

end Arveil.Executor
