import Arveil.Lib.Log
import Arveil.Spec.Carrier

/-! Replies answer the request they name, on a connection whose relay may send anything at any
time. Each entry of the log is allowed by those before it, and a call's phase says what the
log must look like while it waits. -/

namespace Arveil.Carrier

variable {χ : Type} {codec : Codec χ}

def askedIn (log : List Entry) : List UInt64 := log.filterMap fun
  | .asked id _ => some id
  | _ => none

def Quiet (e : Entry) : Prop := (∀ id p, e ≠ .asked id p) ∧ ∀ id r, e ≠ .answered id r

def Open (id : UInt64) (log : List Entry) : Prop := ∃ p, Log.Since (fun _ => True) (.asked id p) Quiet log

/-- A notice came after the last return of `next_wakeup` with one. -/
def Noticed (log : List Entry) : Prop := ∃ f, isWakeup f = true ∧ Log.Since (fun _ => True) (.frame f) (· ≠ .woke) log

theorem noticed_append {log : List Entry} {e : Entry} :
    Noticed (log ++ [e]) ↔ (∃ f, e = .frame f ∧ isWakeup f = true) ∨ (Noticed log ∧ e ≠ .woke) := by
  constructor
  · rintro ⟨f, hf, before, rest, hlog, -, hrest⟩
    rcases Log.split_append hlog with ⟨-, rfl, -⟩ | ⟨rest', rfl, rfl⟩
    · exact Or.inl ⟨f, rfl, hf⟩
    · exact Or.inr ⟨⟨f, hf, before, rest', rfl, trivial, fun x hx => hrest x (List.mem_append_left _ hx)⟩,
        hrest e (List.mem_append_right _ List.mem_cons_self)⟩
  · rintro (⟨f, rfl, hf⟩ | ⟨⟨f, hf, hs⟩, he⟩)
    · exact ⟨f, hf, Log.since_last trivial⟩
    · exact ⟨f, hf, hs.append he⟩

theorem noticed_plain {log : List Entry} {e : Entry} (hf : ∀ f, e = .frame f → isWakeup f = false) (hw : e ≠ .woke) :
    Noticed (log ++ [e]) ↔ Noticed log := by
  rw [noticed_append]
  constructor
  · rintro (⟨f, he, h⟩ | ⟨h, -⟩)
    · rw [hf f he] at h
      cases h
    · exact h
  · exact fun h => Or.inr ⟨h, hw⟩

theorem askedIn_append {log : List Entry} {e : Entry} (h : ∀ id p, e ≠ .asked id p) : askedIn (log ++ [e]) = askedIn log := by
  cases e <;> simp [askedIn]
  case asked id p => exact h id p rfl

/-- The result of a request comes from the frame before it. -/
def FromFrame (before : List Entry) (id : UInt64) (r : Except CliError Payload) : Prop :=
  (∀ p, r = .ok p → before.getLast? = some (.frame ⟨id, p⟩) ∧ isWakeup ⟨id, p⟩ = false) ∧
    ∀ code m, r = .error (.relay code m) → ∃ c : UInt16, c.toNat = code ∧ before.getLast? = some (.frame ⟨id, .error c m⟩)

/-- What may follow a log. -/
structure Allowed (before : List Entry) (e : Entry) : Prop where
  numbered : ∀ id p, e = .asked id p → id = UInt64.ofNat ((askedIn before).length + 1)
  /-- nothing is asked, sent or read on a connection that was given up -/
  alive : (∃ id p, e = .asked id p) ∨ (∃ m, e = .sent m) ∨ (∃ i, e = .read i) ∨ (∃ f, e = .frame f) → .timedOut ∉ before
  answered : ∀ id r, e = .answered id r → Open id before ∧ FromFrame before id r
  woke : ∀ b, before = b ++ [.listened] → Noticed b → e = .woke

structure Core (w : World χ) : Prop where
  log : Log.Preceded Allowed (fun _ => True) w.log
  ids : askedIn w.log = (List.range (askedIn w.log).length).map fun k => UInt64.ofNat (k + 1)
  next : w.conn.nextId = UInt64.ofNat ((askedIn w.log).length + 1)
  alive : w.conn.channel.isSome = true ↔ .timedOut ∉ w.log
  pending : w.conn.wakePending = true ↔ Noticed w.log

/-- No call of `next_wakeup` has just begun that a notice must end. -/
def Calm (log : List Entry) : Prop := ∀ b, log = b ++ [.listened] → ¬ Noticed b

theorem calm_append {log : List Entry} {e : Entry} (h : e ≠ .listened) : Calm (log ++ [e]) := by
  intro b hb
  exact absurd (List.cons.inj (List.append_inj' hb rfl).2).1 h

theorem calm_of_not_noticed {log : List Entry} (h : ¬ Noticed log) : Calm log := by
  rintro b rfl hb
  exact h ((noticed_plain (fun f hf => by cases hf) (by simp)).2 hb)

def PhaseOk (w : World χ) : Phase → Prop
  | .idle => True
  | .sending _ id _ | .waiting _ id => Open id w.log ∧ w.conn.channel.isSome = true
  | .listening => w.conn.channel.isSome = true ∧ ¬ Noticed w.log

structure Inv (w : World χ) : Prop extends Core w where
  calm : Calm w.log
  phase : PhaseOk w w.phase

theorem Open.append {log : List Entry} {id : UInt64} {e : Entry} (h : Open id log) (he : Quiet e) : Open id (log ++ [e]) := by
  obtain ⟨p, hs⟩ := h
  exact ⟨p, hs.append he⟩

structure Plain (e : Entry) : Prop where
  asked : ∀ id p, e ≠ .asked id p
  timedOut : e ≠ .timedOut
  frame : ∀ f, e = .frame f → isWakeup f = false
  woke : e ≠ .woke

theorem Core.note {w : World χ} (h : Core w) {e : Entry} (he : Plain e) (ha : Allowed w.log e) : Core (w.note [e]) where
  log := h.log.append fun _ => ha
  ids := by
    simp only [World.note, askedIn_append he.asked]
    exact h.ids
  next := by
    simp only [World.note, askedIn_append he.asked]
    exact h.next
  alive := by
    simp only [World.note, List.mem_append, List.mem_singleton]
    rw [h.alive]
    constructor
    · rintro hn (hm | hm)
      · exact hn hm
      · exact he.timedOut hm.symm
    · exact fun hn hm => hn (Or.inl hm)
  pending := by
    simp only [World.note, noticed_plain he.frame he.woke]
    exact h.pending

theorem Core.goTo {w : World χ} (h : Core w) (p : Phase) : Core (w.goTo p) := ⟨h.log, h.ids, h.next, h.alive, h.pending⟩

theorem allowed_idle {before : List Entry} {e : Entry} (hcalm : Calm before) (hasked : ∀ id p, e ≠ .asked id p)
    (hsent : ∀ m, e ≠ .sent m) (hread : ∀ i, e ≠ .read i) (hframe : ∀ f, e ≠ .frame f)
    (hanswered : ∀ id r, e ≠ .answered id r) : Allowed before e where
  numbered id p he := absurd he (hasked id p)
  alive := by
    rintro (⟨id, p, he⟩ | ⟨m, he⟩ | ⟨i, he⟩ | ⟨f, he⟩)
    · exact absurd he (hasked id p)
    · exact absurd he (hsent m)
    · exact absurd he (hread i)
    · exact absurd he (hframe f)
  answered id r he := absurd he (hanswered id r)
  woke b hb hn := absurd hn (hcalm b hb)

theorem allowed_live {before : List Entry} {e : Entry} (hcalm : Calm before) (halive : .timedOut ∉ before)
    (hasked : ∀ id p, e ≠ .asked id p) (hanswered : ∀ id r, e ≠ .answered id r) : Allowed before e where
  numbered id p he := absurd he (hasked id p)
  alive _ := halive
  answered id r he := absurd he (hanswered id r)
  woke b hb hn := absurd hn (hcalm b hb)

theorem inv_failWakeup {w : World χ} (h : Core w) (hc : Calm w.log) (e : CliError) : Inv (w.failWakeup e) := by
  have hplain : Plain (.wakeupFailed e) := ⟨by simp, by simp, by simp, by simp⟩
  have hallowed : Allowed w.log (.wakeupFailed e) := allowed_idle hc (by simp) (by simp) (by simp) (by simp) (by simp)
  exact ⟨(h.note hplain hallowed).goTo .idle, calm_append (by simp), trivial⟩

theorem inv_listen {w : World χ} (h : Core w) : Inv w.listen := by
  unfold World.listen
  by_cases hp : w.conn.wakePending = true
  · rw [if_pos hp]
    have hnot : ¬ Noticed (w.log ++ [.woke]) := by
      rw [noticed_append]
      rintro (⟨f, he, -⟩ | ⟨-, he⟩)
      · cases he
      · exact he rfl
    have hallowed : Allowed w.log .woke := by
      refine ⟨by simp, ?_, by simp, fun _ _ _ => rfl⟩
      rintro (⟨_, _, he⟩ | ⟨_, he⟩ | ⟨_, he⟩ | ⟨_, he⟩) <;> cases he
    refine ⟨⟨h.log.append fun _ => hallowed, ?_, ?_, ?_, ?_⟩, calm_append (by simp), trivial⟩
    · simp only [World.goTo, World.note, World.setPending, askedIn_append (e := .woke) (by simp)]
      exact h.ids
    · simp only [World.goTo, World.note, World.setPending, askedIn_append (e := .woke) (by simp)]
      exact h.next
    · simpa [World.goTo, World.note, World.setPending] using h.alive
    · simpa [World.goTo, World.note, World.setPending] using hnot
  · rw [if_neg hp]
    have hnot : ¬ Noticed w.log := fun hn => hp (h.pending.2 hn)
    by_cases hch : w.conn.channel.isNone = true
    · rw [if_pos hch]
      exact inv_failWakeup h (calm_of_not_noticed hnot) _
    · rw [if_neg hch]
      refine ⟨h.goTo .listening, calm_of_not_noticed hnot, ?_, hnot⟩
      simpa [World.goTo, Option.isSome_iff_ne_none] using hch

theorem inv_finish {w : World χ} (h : Core w) (hc : Calm w.log) {caller : Caller} {id : UInt64} {r : Except CliError Payload}
    (ho : Open id w.log) (hr : FromFrame w.log id r) : Inv (w.finish codec caller id r) := by
  have hplain : Plain (.answered id r) := ⟨by simp, by simp, by simp, by simp⟩
  have hallowed : Allowed w.log (.answered id r) := by
    refine ⟨by simp, ?_, ?_, fun b hb hn => absurd hn (hc b hb)⟩
    · rintro (⟨_, _, he⟩ | ⟨_, he⟩ | ⟨_, he⟩ | ⟨_, he⟩) <;> cases he
    · intro id' r' he
      obtain ⟨rfl, rfl⟩ := Entry.answered.inj he
      exact ⟨ho, hr⟩
  have hcore := h.note hplain hallowed
  have hcalm : Calm (w.note [.answered id r]).log := calm_append (by simp)
  unfold World.finish
  split
  · exact ⟨hcore.goTo .idle, hcalm, trivial⟩
  · exact inv_listen hcore
  · exact inv_failWakeup hcore hcalm _
  · exact inv_failWakeup hcore hcalm _

theorem fromFrame_error {before : List Entry} {id : UInt64} {e : CliError} (h : ∀ code m, e ≠ .relay code m) :
    FromFrame before id (.error e) :=
  ⟨fun p hp => (by cases hp), fun code m he => absurd (Except.error.inj he) (h code m)⟩

theorem inv_proceed {w : World χ} (h : Core w) (hc : Calm w.log) {caller : Caller} {id : UInt64} (ho : Open id w.log)
    (hch : w.conn.channel.isSome = true) (messages : List Bytes) : Inv (w.proceed caller id messages) := by
  cases messages with
  | nil => exact ⟨h.goTo _, hc, ho, hch⟩
  | cons m rest => exact ⟨h.goTo _, hc, ho, hch⟩

theorem inv_ask {w : World χ} (h : Core w) (hc : Calm w.log) (caller : Caller) (payload : Payload) :
    Inv (w.ask codec caller payload) := by
  unfold World.ask
  cases hch : w.conn.channel with
  | none =>
    have hplain : Plain (.refused payload) := ⟨by simp, by simp, by simp, by simp⟩
    have hallowed : Allowed w.log (.refused payload) := allowed_idle hc (by simp) (by simp) (by simp) (by simp) (by simp)
    have hcore := h.note hplain hallowed
    have hcalm : Calm (w.note [.refused payload]).log := calm_append (by simp)
    cases caller with
    | request => exact ⟨hcore.goTo .idle, hcalm, trivial⟩
    | keepalive => exact inv_failWakeup hcore hcalm _
  | some channel =>
    dsimp only
    have hlive : .timedOut ∉ w.log := h.alive.1 (by rw [hch]; rfl)
    have hids : askedIn (w.log ++ [.asked w.conn.nextId payload]) = askedIn w.log ++ [w.conn.nextId] := by simp [askedIn]
    have hallowed : Allowed w.log (.asked w.conn.nextId payload) := by
      refine ⟨?_, fun _ => hlive, by simp, fun b hb hn => absurd hn (hc b hb)⟩
      intro id p he
      rw [← (Entry.asked.inj he).1]
      exact h.next
    rcases (if w.conn.padded then codec.sealPadded else codec.sealFrame) channel ⟨w.conn.nextId, payload⟩ with ⟨r, c⟩
    have hcore : Core ({ w with conn := { w.conn with channel := some c, nextId := w.conn.nextId + 1 } }.note
        [.asked w.conn.nextId payload] : World χ) := by
      refine ⟨h.log.append fun _ => hallowed, ?_, ?_, ?_, ?_⟩
      · simp only [World.note, hids, List.length_append, List.length_singleton, List.range_succ, List.map_append,
          List.map_cons, List.map_nil]
        rw [← h.ids, ← h.next]
      · simp only [World.note, hids, List.length_append, List.length_singleton]
        rw [h.next]
        exact (UInt64.ofNat_add ((askedIn w.log).length + 1) 1).symm
      · simpa [World.note] using hlive
      · simp only [World.note]
        rw [noticed_plain (by simp) (by simp)]
        exact h.pending
    have hcalm : Calm (w.log ++ [.asked w.conn.nextId payload]) := calm_append (by simp)
    have hopen : Open w.conn.nextId (w.log ++ [.asked w.conn.nextId payload]) := ⟨payload, Log.since_last trivial⟩
    cases r with
    | error e => exact inv_finish hcore hcalm hopen (fromFrame_error (by simp))
    | ok messages => exact inv_proceed hcore hcalm hopen rfl messages

theorem inv_reply {w : World χ} (h : Core w) (hc : Calm w.log) {caller : Caller} {id : UInt64} (ho : Open id w.log)
    (hch : w.conn.channel.isSome = true) (hph : w.phase = .waiting caller id) (f : Frame) :
    Inv (w.reply codec caller id f) := by
  have hlive : .timedOut ∉ w.log := h.alive.1 hch
  have hallowed : Allowed w.log (.frame f) := allowed_live hc hlive (by simp) (by simp)
  have hcalm : Calm (w.log ++ [.frame f]) := calm_append (by simp)
  have hopen : Open id (w.log ++ [.frame f]) := ho.append ⟨by simp, by simp⟩
  unfold World.reply
  cases hw : isWakeup f with
  | true =>
    rw [if_pos rfl]
    refine ⟨⟨h.log.append fun _ => hallowed, ?_, ?_, ?_, ?_⟩, hcalm, ?_⟩
    · simp only [World.setPending, World.note, askedIn_append (e := .frame f) (by simp)]
      exact h.ids
    · simp only [World.setPending, World.note, askedIn_append (e := .frame f) (by simp)]
      exact h.next
    · simpa [World.setPending, World.note] using h.alive
    · simp only [World.setPending, World.note, true_iff]
      exact noticed_append.2 (Or.inl ⟨f, rfl, hw⟩)
    · simp only [World.setPending, World.note, hph]
      exact ⟨hopen, hch⟩
  | false =>
    rw [if_neg (by simp)]
    have hplain : Plain (.frame f) := ⟨by simp, by simp, fun g hg => (Entry.frame.inj hg) ▸ hw, by simp⟩
    have hcore := h.note hplain hallowed
    by_cases hid : f.id = id
    · rw [if_neg (not_not.2 hid)]
      have hframe : f = ⟨id, f.payload⟩ := by rw [← hid]
      have hlast : (w.note [.frame f]).log.getLast? = some (.frame ⟨id, f.payload⟩) := by
        rw [← hframe]
        exact List.getLast?_concat
      have hok : ∀ p, f.payload = p → FromFrame (w.note [.frame f]).log id (.ok p) := by
        rintro p rfl
        refine ⟨fun q hq => ?_, fun code m he => (by cases he)⟩
        rw [← Except.ok.inj hq, ← hframe]
        exact ⟨List.getLast?_concat, hw⟩
      split
      · next code m hp =>
        refine inv_finish hcore hcalm hopen ⟨fun p hp => (by cases hp), fun c' m' he => ?_⟩
        obtain ⟨rfl, rfl⟩ := CliError.relay.inj (Except.error.inj he)
        exact ⟨code, rfl, hp ▸ hlast⟩
      · exact inv_finish hcore hcalm hopen (hok _ rfl)
    · rw [if_pos hid]
      exact inv_finish hcore hcalm hopen (fromFrame_error (by simp))

theorem Core.setChannel {w : World χ} (h : Core w) (hch : w.conn.channel.isSome = true) (c : χ) :
    Core (w.setChannel (some c)) :=
  ⟨h.log, h.ids, h.next, ⟨fun _ => h.alive.1 hch, fun _ => rfl⟩, h.pending⟩

theorem Core.read {w : World χ} (h : Core w) (hc : Calm w.log) (hch : w.conn.channel.isSome = true) (i : Incoming) :
    Core (w.note [.read i]) :=
  h.note ⟨by simp, by simp, by simp, by simp⟩ (allowed_live hc (h.alive.1 hch) (by simp) (by simp))

theorem failure_not_relay {i : Incoming} {e : CliError} (h : i.failure = some e) (code : Nat) (m : String) : e ≠ .relay code m := by
  cases i <;> simp only [Incoming.failure, reduceCtorEq, Option.some.injEq] at h
  all_goals simp [← h]

theorem inv_answer {w : World χ} (h : Inv w) {caller : Caller} {id : UInt64} (hph : w.phase = .waiting caller id) (i : Incoming) :
    Inv (w.answer codec caller id i) := by
  obtain ⟨ho, hch⟩ : Open id w.log ∧ w.conn.channel.isSome = true := by
    have hok := h.phase
    rw [hph] at hok
    exact hok
  have hcore := h.toCore.read h.calm hch i
  have hcalm : Calm (w.log ++ [.read i]) := calm_append (by simp)
  have hopen : Open id (w.log ++ [.read i]) := ho.append ⟨by simp, by simp⟩
  have hstay : Inv (w.note [.read i]) := by
    refine ⟨hcore, hcalm, ?_⟩
    simp only [World.note, hph]
    exact ⟨hopen, hch⟩
  unfold World.answer
  split
  · next message =>
    obtain ⟨channel, hsome⟩ := Option.isSome_iff_exists.1 hch
    rcases hm : codec.openMessage channel message with ⟨r, c⟩
    simp only [World.note, hsome, hm]
    have hcore' := hcore.setChannel hch c
    rcases r with e | f
    · exact inv_finish hcore' hcalm hopen (fromFrame_error (by simp))
    · cases f with
      | none =>
        refine ⟨hcore', hcalm, ?_⟩
        simp only [World.setChannel, hph]
        exact ⟨hopen, rfl⟩
      | some f => exact inv_reply hcore' hcalm hopen rfl hph f
  · split
    · exact hstay
    · next e he => exact inv_finish hcore hcalm hopen (fromFrame_error (failure_not_relay he))

theorem inv_notice {w : World χ} (h : Core w) (hc : Calm w.log) (hch : w.conn.channel.isSome = true) (hn : ¬ Noticed w.log)
    (f : Frame) : Inv (w.notice f) := by
  have hallowed : Allowed w.log (.frame f) := allowed_live hc (h.alive.1 hch) (by simp) (by simp)
  unfold World.notice
  cases hw : isWakeup f with
  | true =>
    rw [if_pos rfl]
    have hallowed' : Allowed (w.log ++ [.frame f]) .woke :=
      allowed_idle (calm_append (by simp)) (by simp) (by simp) (by simp) (by simp) (by simp)
    refine ⟨⟨?_, ?_, ?_, ?_, ?_⟩, calm_append (by simp), trivial⟩
    · exact (h.log.append fun _ => hallowed).append fun _ => hallowed'
    · simp only [World.goTo, World.note, askedIn_append (e := .woke) (by simp), askedIn_append (e := .frame f) (by simp)]
      exact h.ids
    · simp only [World.goTo, World.note, askedIn_append (e := .woke) (by simp), askedIn_append (e := .frame f) (by simp)]
      exact h.next
    · simpa [World.goTo, World.note] using h.alive
    · have hpend : w.conn.wakePending = false := by
        rw [← Bool.not_eq_true, h.pending]
        exact hn
      simp only [World.goTo, World.note, hpend, Bool.false_eq_true, false_iff]
      rw [noticed_append]
      rintro (⟨g, he, -⟩ | ⟨-, he⟩)
      · cases he
      · exact he rfl
  | false =>
    rw [if_neg (by simp)]
    have hplain : Plain (.frame f) := ⟨by simp, by simp, fun g hg => (Entry.frame.inj hg) ▸ hw, by simp⟩
    exact inv_failWakeup (h.note hplain hallowed) (calm_append (by simp)) _

theorem inv_hear {w : World χ} (h : Inv w) (hph : w.phase = .listening) (i : Incoming) : Inv (w.hear codec i) := by
  obtain ⟨hch, hn⟩ : w.conn.channel.isSome = true ∧ ¬ Noticed w.log := by
    have hok := h.phase
    rw [hph] at hok
    exact hok
  have hcore := h.toCore.read h.calm hch i
  have hcalm : Calm (w.log ++ [.read i]) := calm_append (by simp)
  have hnot : ¬ Noticed (w.log ++ [.read i]) := by
    rw [noticed_plain (by simp) (by simp)]
    exact hn
  unfold World.hear
  split
  · next message =>
    obtain ⟨channel, hsome⟩ := Option.isSome_iff_exists.1 hch
    rcases hm : codec.openMessage channel message with ⟨r, c⟩
    simp only [World.note, hsome, hm]
    have hcore' := hcore.setChannel hch c
    rcases r with e | f
    · exact inv_failWakeup hcore' hcalm _
    · cases f with
      | none => exact inv_listen hcore'
      | some f => exact inv_notice hcore' hcalm rfl hnot f
  · split
    · refine ⟨hcore, hcalm, ?_⟩
      simp only [World.note, hph]
      exact ⟨hch, hnot⟩
    · exact inv_failWakeup hcore hcalm _

theorem inv_giveUp {w : World χ} (h : Inv w) {caller : Caller} {id : UInt64} (ho : Open id w.log) :
    Inv (w.giveUp codec caller id) := by
  have hallowed : Allowed w.log .timedOut := allowed_idle h.calm (by simp) (by simp) (by simp) (by simp) (by simp)
  have hcore : Core ((w.setChannel none).note [.timedOut]) := by
    refine ⟨h.log.append fun _ => hallowed, ?_, ?_, ?_, ?_⟩
    · simp only [World.note, World.setChannel, askedIn_append (e := .timedOut) (by simp)]
      exact h.ids
    · simp only [World.note, World.setChannel, askedIn_append (e := .timedOut) (by simp)]
      exact h.next
    · simp [World.note, World.setChannel]
    · simp only [World.note, World.setChannel]
      rw [noticed_plain (by simp) (by simp)]
      exact h.pending
  exact inv_finish hcore (calm_append (by simp)) (ho.append ⟨by simp, by simp⟩) (fromFrame_error (by simp [timedOut]))

theorem inv_step (codec : Codec χ) {w : World χ} (h : Inv w) (ev : Event) : Inv (step codec w ev) := by
  cases ev with
  | request payload =>
    simp only [step]
    split
    · exact inv_ask h.toCore h.calm .request payload
    · exact h
  | nextWakeup =>
    simp only [step]
    split
    · have hplain : Plain .listened := ⟨by simp, by simp, by simp, by simp⟩
      exact inv_listen (h.toCore.note hplain (allowed_idle h.calm (by simp) (by simp) (by simp) (by simp) (by simp)))
    · exact h
  | written failure =>
    simp only [step]
    split
    · next caller id message rest hph =>
      obtain ⟨ho, hch⟩ : Open id w.log ∧ w.conn.channel.isSome = true := by
        have hok := h.phase
        rw [hph] at hok
        exact hok
      cases failure with
      | none =>
        have hcore := h.toCore.note (e := .sent message) ⟨by simp, by simp, by simp, by simp⟩
          (allowed_live h.calm (h.alive.1 hch) (by simp) (by simp))
        exact inv_proceed hcore (calm_append (by simp)) (ho.append ⟨by simp, by simp⟩) hch rest
      | some e => exact inv_finish h.toCore h.calm ho (fromFrame_error (by simp))
    · exact h
  | arrives i =>
    simp only [step]
    split
    · next caller id hph => exact inv_answer h hph i
    · next hph => exact inv_hear h hph i
    · exact h
  | elapsed =>
    simp only [step]
    split
    · next caller id messages hph =>
      have hok := h.phase
      rw [hph] at hok
      exact inv_giveUp h hok.1
    · next caller id hph =>
      have hok := h.phase
      rw [hph] at hok
      exact inv_giveUp h hok.1
    · exact inv_ask h.toCore h.calm .keepalive .ping
    · exact h

theorem inv_opened (channel : χ) (requestTimeout : Nat) (padded : Bool) : Inv (opened channel requestTimeout padded) where
  log := by
    intro before e after hlog
    exact absurd hlog.symm (by simp [opened])
  ids := rfl
  next := rfl
  alive := by simp [opened]
  pending := by
    simp only [opened, Bool.false_eq_true, false_iff]
    rintro ⟨f, -, before, rest, hlog, -⟩
    exact absurd hlog.symm (by simp)
  calm := by
    intro b hb
    exact absurd hb.symm (by simp [opened])
  phase := trivial

theorem inv_after (codec : Codec χ) {w : World χ} (h : Inv w) (evs : List Event) : Inv (after codec w evs) :=
  Trace.invariant (I := Inv) (fun _ ev _ hw => inv_step codec hw ev) (Trace.meets_true w evs) h

/-- Whatever the relay sends and whenever a timer runs out: requests carry the numbers from one
on; one returns a reply or the relay's error only with the frame it has just read, which
carries its number and is no notice; nothing is asked, sent or read after a timeout; and a
notice that came while something else was awaited ends the next call of `next_wakeup`. -/
theorem replies_match_requests (codec : Codec χ) (channel : χ) (requestTimeout : Nat) (padded : Bool) (evs : List Event) :
    let log := (after codec (opened channel requestTimeout padded) evs).log
    askedIn log = ((List.range (askedIn log).length).map fun k => UInt64.ofNat (k + 1)) ∧
    (∀ before id r rest, log = before ++ .answered id r :: rest → Open id before ∧ FromFrame before id r) ∧
    (∀ before rest, log = before ++ .timedOut :: rest → ∀ e ∈ rest,
      (∀ id p, e ≠ .asked id p) ∧ (∀ m, e ≠ .sent m) ∧ (∀ i, e ≠ .read i) ∧ ∀ f, e ≠ .frame f) ∧
    ∀ before f mid e rest, log = before ++ .frame f :: (mid ++ .listened :: e :: rest) → isWakeup f = true → .woke ∉ mid →
      e = .woke := by
  intro log
  have h : Inv (after codec (opened channel requestTimeout padded) evs) := inv_after codec (inv_opened channel requestTimeout padded) evs
  refine ⟨h.ids, fun before id r rest hlog => (h.log before _ rest hlog trivial).answered id r rfl, ?_, ?_⟩
  · intro before rest hlog e he
    obtain ⟨mid, rest', rfl⟩ := List.append_of_mem he
    have hallowed := h.log (before ++ .timedOut :: mid) e rest' (hlog.trans (by simp)) trivial
    have hdead : Entry.timedOut ∈ before ++ .timedOut :: mid := List.mem_append_right _ List.mem_cons_self
    exact ⟨fun id p heq => hallowed.alive (Or.inl ⟨id, p, heq⟩) hdead, fun m heq => hallowed.alive (Or.inr (Or.inl ⟨m, heq⟩)) hdead,
      fun i heq => hallowed.alive (Or.inr (Or.inr (Or.inl ⟨i, heq⟩))) hdead,
      fun f heq => hallowed.alive (Or.inr (Or.inr (Or.inr ⟨f, heq⟩))) hdead⟩
  · intro before f mid e rest hlog hf hwoke
    have hallowed := h.log ((before ++ .frame f :: mid) ++ [.listened]) e rest (hlog.trans (by simp)) trivial
    exact hallowed.woke _ rfl ⟨f, hf, before, mid, rfl, trivial, fun x hx heq => hwoke (heq ▸ hx)⟩

end Arveil.Carrier
