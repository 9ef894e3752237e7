import Arveil.Proofs.Updates.Installs

/-! What protects the app from a rolled-back update: the accepted sequence of an identity only rises,
on disk as in memory, one digest stands at each sequence, an announcement is kept before it is
offered, and an offer is tested again before it is used. -/

namespace Arveil.Updates

open Dialog

variable {cx : Dart} {first : File} {timely : Prop}
variable {config : UpdateConfig}

/-- An operation waits at a question, or none is in progress. -/
def Inv (cx : Dart) (first : File) (timely : Prop) (s : System) : Prop :=
  match s.task with
  | none => Base cx first timely s.world ∧ s.world.me.busy = false
  | some t => ∃ config q, t.asks = some q ∧ Runs cx first timely config (fun _ w => Base cx first timely w ∧ w.me.busy = false) t s.world

theorem Inv.idle {s : System} (h : Inv cx first timely s) (hb : s.world.me.busy = false) : s.task = none ∧ Base cx first timely s.world := by
  unfold Inv at h
  cases ht : s.task with
  | none =>
    rw [ht] at h
    exact ⟨rfl, h.1⟩
  | some t =>
    rw [ht] at h
    obtain ⟨config, q, hq, hruns⟩ := h
    have hbusy := (hruns.asked hq).1.busy
    rw [hb] at hbusy
    nomatch hbusy

theorem Inv.base {s : System} (h : Inv cx first timely s) : Base cx first timely s.world := by
  unfold Inv at h
  cases ht : s.task with
  | none =>
    rw [ht] at h
    exact h.1
  | some t =>
    rw [ht] at h
    obtain ⟨config, q, hq, hruns⟩ := h
    exact (hruns.asked hq).1.toBase

theorem sameDisk_run {a b : World} (h : Relation.ReflTransGen SameDisk a b) : b.disk = a.disk := by
  induction h with
  | refl => rfl
  | tail _ hs ih => exact hs.trans ih

theorem inv_go {t : Op Unit} {w : World} (h : Runs cx first timely config (fun _ w => Base cx first timely w ∧ w.me.busy = false) t w) :
    Inv cx first timely (.at (go t w)) ∧ (System.at (go t w)).world.disk = w.disk := by
  obtain ⟨hdisk, hruns⟩ := waits_go h
  have hsame := sameDisk_run hdisk
  have hends := go_ends t w
  rcases hgo : go t w with ⟨t', w'⟩
  rw [hgo] at hruns hsame hends
  cases t' with
  | done r => exact ⟨hruns, hsame⟩
  | step f k => rcases hends with ⟨r, hr⟩ | ⟨q, hq⟩ <;> contradiction
  | ask q k => exact ⟨⟨config, q, rfl, hruns⟩, hsame⟩

theorem inv_begin {s : System} {operation : UpdateConfig → Op Unit} (h : Inv cx first timely s)
    (hop : ∀ config w, Ready cx first timely config w → w.me.stateFailed = false →
      Runs cx first timely config (fun _ w' => Ready cx first timely config w') (operation config) w) :
    Inv cx first timely (s.begin operation) ∧ (s.begin operation).world.disk = s.world.disk := by
  unfold System.begin
  cases hc : s.world.me.config with
  | none => exact ⟨h, rfl⟩
  | some config =>
    dsimp only
    split_ifs with hrefused hfailed
    · exact ⟨h, rfl⟩
    · rw [Bool.or_eq_true, not_or, Bool.not_eq_true] at hrefused
      obtain ⟨ht, hbase⟩ := h.idle hrefused.1
      refine ⟨?_, rfl⟩
      unfold Inv
      rw [ht]
      exact ⟨⟨hbase.synced, hbase.offered, hbase.logged, hbase.noted⟩, hrefused.1⟩
    · rw [Bool.or_eq_true, not_or, Bool.not_eq_true] at hrefused
      rw [Bool.not_eq_true] at hfailed
      refine @inv_go cx first timely config _ _ ?_
      exact runs_run (h.idle hrefused.1).2 hc fun w' hw' hf => hop config w' hw' (hf.trans hfailed)

theorem inv_meanwhile {s : System} {w : World} (h : Inv cx first timely s) (hw : Meanwhile s.world w) : Inv cx first timely { s with world := w } := by
  unfold Inv at *
  cases ht : s.task with
  | none =>
    rw [ht] at h
    exact ⟨h.1.meanwhile hw, hw.busy.trans h.2⟩
  | some t =>
    rw [ht] at h
    obtain ⟨config, q, hq, hruns⟩ := h
    exact ⟨config, q, hq, waits_rely (R := Meanwhile) (J := Waiting cx first timely config) (fun _ _ _ => Meanwhile.trans)
      (fun _ _ _ => Waiting.meanwhile) hq hruns hw⟩

theorem historiesOf_ok {f : File} {s : Saved} (h : f.load cx = .ok s) : historiesOf cx f = s.histories := by
  rw [historiesOf, h]

theorem land_advances {q : Question} {w : World} (h : Waiting cx first timely config q w) (a : Answer) :
    Advances (historiesOf cx w.disk) (historiesOf cx (land q a w).disk) := by
  have hstay : ∀ {w' : World}, w'.disk = w.disk → Advances (historiesOf cx w.disk) (historiesOf cx w'.disk) := fun hd =>
    hd ▸ .refl _
  cases q with
  | write data =>
    obtain ⟨hready, hf, s, rfl, hadvances⟩ := h
    have hold := historiesOf_ok (hready.synced (hready.config ▸ rfl) hf)
    have hnew : historiesOf cx (writes (s.json cx) w).disk = s.histories := historiesOf_ok (restore_json s)
    have hwritten : Advances (historiesOf cx w.disk) (historiesOf cx (writes (s.json cx) w).disk) := by
      rw [hold, hnew]
      exact hadvances
    cases a with
    | done => exact hwritten
    | failed e landed =>
      cases landed with
      | true => exact hwritten
      | false => exact hstay rfl
    | _ => exact hstay rfl
  | _ => exact hstay rfl

theorem land_noted {q : Question} {w : World} (h : Noted cx first timely w.log) (a : Answer) : Noted cx first timely (land q a w).log := by
  cases q with
  | write data =>
    cases a with
    | done => exact noted_append h trivial
    | failed e landed =>
      cases landed with
      | true => exact noted_append h trivial
      | false => exact h
    | _ => exact h
  | _ => exact h

theorem load_cases (c : Controller) (disk : File) (readable : Bool) :
    (c.config = none ∧ c.load cx disk readable = c) ∨ (∃ s, disk.load cx = .ok s ∧ c.load cx disk readable = c.adopt s) ∨
      c.load cx disk readable = { c with stateFailed := true, error := some "state" } := by
  unfold Controller.load
  cases hc : c.config with
  | none => exact Or.inl ⟨rfl, rfl⟩
  | some config =>
    refine Or.inr ?_
    cases readable with
    | false => exact Or.inr rfl
    | true =>
      cases hl : disk.load cx with
      | ok s => exact Or.inl ⟨s, rfl, by simp⟩
      | error e => exact Or.inr (by simp)

theorem land_logged {q : Question} {w : World} (h : w.disk = stored first w.log) (a : Answer) :
    (land q a w).disk = stored first (land q a w).log := by
  have hwritten : ∀ data, (writes data w).disk = stored first (writes data w).log := fun data =>
    (stored_append w.log [.wrote data]).symm
  cases q with
  | write data =>
    cases a with
    | done => exact hwritten data
    | failed e landed =>
      cases landed with
      | true => exact hwritten data
      | false => exact h
    | _ => exact h
  | _ => exact h

theorem base_load {w : World} (hl : w.disk = stored first w.log) (hn : Noted cx first timely w.log) (config : Option UpdateConfig)
    (notifyOnly readable : Bool) :
    Inv cx first timely ⟨{ w with me := (Controller.new config notifyOnly).load cx w.disk readable }, none⟩ := by
  have hfields : ∀ c : Controller, c.manifest = none → c.busy = false →
      (c.config.isSome = true → c.stateFailed = false → w.disk.load cx = .ok ⟨c.automatic, c.lastAttempt, c.histories⟩) →
      Inv cx first timely ⟨{ w with me := c }, none⟩ := fun c hm hb hs =>
    ⟨⟨hs, fun _ _ _ m _ hm' => (nomatch hm.symm.trans hm'), hl, hn⟩, hb⟩
  rcases @load_cases cx (Controller.new config notifyOnly) w.disk readable with ⟨hc, hl⟩ | ⟨s, hs, hl⟩ | hl <;> rw [hl]
  · refine hfields _ rfl rfl fun hc' => ?_
    rw [hc] at hc'
    nomatch hc'
  · exact hfields _ rfl rfl fun _ _ => hs
  · exact hfields _ rfl rfl fun _ hf => nomatch hf

/-- The process ends: a write on its way reached the store, or did not. -/
theorem left_advances {s : System} (h : Inv cx first timely s) (landed : Bool) :
    Advances (historiesOf cx s.world.disk) (historiesOf cx (s.left landed).disk) ∧
      (s.left landed).disk = stored first (s.left landed).log ∧ Noted cx first timely (s.left landed).log := by
  have hbase := h.base
  unfold Inv at h
  unfold System.left
  cases ht : s.task with
  | none => exact ⟨.refl _, hbase.logged, hbase.noted⟩
  | some t =>
    rw [ht] at h
    obtain ⟨config, q, hq, hruns⟩ := h
    simp only [Option.bind_some, hq]
    cases landed with
    | false => exact ⟨.refl _, hbase.logged, hbase.noted⟩
    | true => exact ⟨land_advances (hruns.asked hq) .done, land_logged hbase.logged .done, land_noted hbase.noted .done⟩

theorem meanwhile_openDownload (w : World) : Meanwhile w { w with me := w.me.openDownload cx w.now } := by
  have hsame : ∀ c : Controller, c = w.me → Meanwhile w { w with me := c } := fun c hc => hc ▸ .refl w
  unfold Controller.openDownload
  split
  case h_1 config selected hc hm =>
    split_ifs with hstop
    · exact hsame _ rfl
    · have hnotify : w.me.notifyOnly = true := by
        by_contra hn
        exact hstop (by simp [hn])
      split
      · exact hsame _ rfl
      · exact ⟨⟨rfl, rfl, rfl, rfl, rfl, rfl, rfl, rfl, rfl⟩, fun hn => (nomatch hnotify.symm.trans hn),
          fun hn => (nomatch hnotify.symm.trans hn)⟩
      · exact hsame _ rfl
  case h_2 => exact hsame _ rfl

/-- An answer that comes to an operation comes in time. -/
def Punctual (s : System) : Event → Prop
  | .answer a => ∀ q, s.task.bind asks = some q → InTime q a s.world
  | _ => True

theorem inv_step {s : System} (h : Inv cx first timely s) (e : Event) (hp : timely → Punctual s e) :
    Inv cx first timely (step cx s e) ∧
      Advances (historiesOf cx s.world.disk) (historiesOf cx (step cx s e).world.disk) := by
  have hbegin : ∀ {operation : UpdateConfig → Op Unit}, (∀ config w, Ready cx first timely config w → w.me.stateFailed = false →
      Runs cx first timely config (fun _ w' => Ready cx first timely config w') (operation config) w) →
      Inv cx first timely (s.begin operation) ∧ Advances (historiesOf cx s.world.disk) (historiesOf cx (s.begin operation).world.disk) := by
    intro operation hop
    obtain ⟨hinv, hdisk⟩ := inv_begin h hop
    exact ⟨hinv, hdisk ▸ .refl _⟩
  have hbeside : ∀ {w : World}, Meanwhile s.world w →
      Inv cx first timely { s with world := w } ∧ Advances (historiesOf cx s.world.disk) (historiesOf cx w.disk) := fun hw =>
    ⟨inv_meanwhile h hw, hw.disk ▸ .refl _⟩
  have hcheck := @hbegin (check cx) fun config w hw hf => runs_check hw hf fun _ _ hw' => hw'
  cases e with
  | setAutomatic b => exact hbegin fun config w hw hf => runs_setAutomatic hw hf
  | checkAutomatically =>
    rw [step]
    split_ifs
    · exact hcheck
    · exact ⟨h, .refl _⟩
  | check => exact hcheck
  | download => exact hbegin fun config w hw hf => runs_download hw hf fun _ _ hw' => hw'
  | permission =>
    exact hbegin fun config w hw _ => runs_askDone hw trivial (fun _ _ => rfl) fun _ _ hw' => hw.meanwhile hw'
  | install => exact hbegin fun config w hw hf => runs_install hw hf fun _ _ hw' => hw'
  | answer a =>
    unfold Inv at h
    unfold step
    cases ht : s.task with
    | none => exact ⟨by unfold Inv; rw [ht] at h ⊢; exact h, .refl _⟩
    | some t =>
      rw [ht] at h
      obtain ⟨config, q, hq, hruns⟩ := h
      have ha : timely → InTime q a s.world := fun htimely => hp htimely q (by rw [ht]; exact hq)
      have hreplied := waits_reply Meanwhile.refl hq hruns ha
      obtain ⟨hinv, hdisk⟩ := inv_go hreplied
      simp only [hq]
      refine ⟨hinv, ?_⟩
      rw [hdisk]
      exact land_advances (hruns.asked hq) a
  | cancelDownload => exact hbeside ⟨⟨rfl, rfl, rfl, rfl, rfl, rfl, rfl, rfl, rfl⟩, fun _ => rfl, fun _ => rfl⟩
  | dispose => exact hbeside ⟨⟨rfl, rfl, rfl, rfl, rfl, rfl, rfl, rfl, rfl⟩, fun _ => rfl, fun _ => rfl⟩
  | refreshed b => exact hbeside ⟨⟨rfl, rfl, rfl, rfl, rfl, rfl, rfl, rfl, rfl⟩, fun _ => rfl, fun _ => rfl⟩
  | openDownload => exact hbeside (meanwhile_openDownload s.world)
  | clock now => exact hbeside ⟨⟨rfl, rfl, rfl, rfl, rfl, rfl, rfl, rfl, rfl⟩, fun _ => rfl, fun _ => rfl⟩
  | restart landed config notifyOnly readable =>
    obtain ⟨hadvances, hlogged, hnoted⟩ := left_advances h landed
    exact ⟨base_load hlogged hnoted config notifyOnly readable, hadvances⟩

theorem inv_start (disk : File) (now : Int) (config : Option UpdateConfig) (notifyOnly readable : Bool) :
    Inv cx disk timely (start cx disk now config notifyOnly readable) :=
  base_load (w := ⟨Controller.new config notifyOnly, disk, now, []⟩) rfl
    (fun _ _ _ h => absurd h (List.append_ne_nil_of_right_ne_nil _ (List.cons_ne_nil _ _)).symm) config notifyOnly readable

theorem inv_run {s : System} (h : Inv cx first timely s) {evs : List Event} (hp : timely → Trace.Meets (step cx) Punctual s evs) :
    Inv cx first timely (Trace.run (step cx) s evs) := by
  induction evs generalizing s with
  | nil => exact h
  | cons e evs ih => exact ih (inv_step h e fun ht => (hp ht).1).1 fun ht => (hp ht).2

theorem advances_run {s : System} (h : Inv cx first False s) (evs : List Event) :
    Advances (historiesOf cx s.world.disk) (historiesOf cx (Trace.run (step cx) s evs).world.disk) := by
  induction evs generalizing s with
  | nil => exact .refl _
  | cons e evs ih =>
    obtain ⟨hinv, hadvances⟩ := inv_step h e False.elim
    exact hadvances.trans (ih hinv)

/-- Protection against a rolled-back update, over the moments of a run. -/
structure Protected (cx : Dart) (first : File) (moment : List Event → System) (punctual : List Event → Prop) : Prop where
  rises : ∀ evs later i, sequenceIn (historiesOf cx (moment evs).world.disk) i ≤
    sequenceIn (historiesOf cx (moment (evs ++ later)).world.disk) i
  unique : ∀ evs later i, sequenceIn (historiesOf cx (moment evs).world.disk) i =
      sequenceIn (historiesOf cx (moment (evs ++ later)).world.disk) i →
    digestIn (historiesOf cx (moment evs).world.disk) i = digestIn (historiesOf cx (moment (evs ++ later)).world.disk) i
  /-- Memory has what the store has, unless a read or a write failed; then nothing more is written. -/
  remembered : ∀ evs, (moment evs).world.me.config.isSome = true → (moment evs).world.me.stateFailed = false →
    (moment evs).world.disk.load cx =
      .ok ⟨(moment evs).world.me.automatic, (moment evs).world.me.lastAttempt, (moment evs).world.me.histories⟩
  /-- An announcement is offered right after its sequence and digest were kept, to a device it is newer than and runs on. -/
  offers : ∀ evs before i m u d after, (moment evs).world.log = before ++ Entry.offered i m u d :: after →
    (∃ earlier data, before = earlier ++ [Entry.wrote data] ∧ Persisted cx data i m) ∧ .device d ∈ before ∧
      u.newerThan d = true ∧ u.compatibleWith cx d = .ok true
  /-- A download starts at a moment at which its announcement is fresh by the accepted history, after it was offered. -/
  downloads : ∀ evs before m now after, (moment evs).world.log = before ++ Entry.download m now :: after →
    ∃ earlier i, before = earlier ++ [Entry.fresh i m now] ∧ Passes cx first before i m now ∧ OfferedBefore before i m
  /-- An installation was fresh when it began, and suits the device that was read next. -/
  installs : ∀ evs before m apk now after, (moment evs).world.log = before ++ Entry.install m apk now :: after →
    ∃ earlier i began d, before = earlier ++ [Entry.fresh i m began, .device d] ∧ Passes cx first before i m began ∧ Suits m d ∧
      OfferedBefore before i m
  /-- It is still fresh when the installer gets it, where no leave to install comes too late. -/
  hands : ∀ evs, punctual evs → ∀ before m apk now after, (moment evs).world.log = before ++ Entry.install m apk now :: after →
    ∃ earlier i began d, before = earlier ++ [Entry.fresh i m began, .device d] ∧ Passes cx first before i m now
  stored : ∀ evs, (moment evs).world.disk = Updates.stored first (moment evs).world.log
  restored : ∀ s : Saved, restore cx (s.json cx) = .ok s

/-- The controller keeps its promises in every run, and the one on what the installer gets in every run in which no leave to
install comes after the announcement expired. -/
theorem updates_protected (cx : Dart) (disk : File) (now : Int) (config : Option UpdateConfig) (notifyOnly readable : Bool) :
    Protected cx disk (fun evs => Trace.run (step cx) (start cx disk now config notifyOnly readable) evs)
      (fun evs => Trace.Meets (step cx) Punctual (start cx disk now config notifyOnly readable) evs) := by
  have hinv : ∀ evs, Inv cx disk False (Trace.run (step cx) (start cx disk now config notifyOnly readable) evs) := fun evs =>
    inv_run (inv_start ..) False.elim
  have hlater : ∀ evs later, Advances (historiesOf cx (Trace.run (step cx) (start cx disk now config notifyOnly readable) evs).world.disk)
      (historiesOf cx (Trace.run (step cx) (start cx disk now config notifyOnly readable) (evs ++ later)).world.disk) := by
    intro evs later
    rw [Trace.run_append]
    exact advances_run (hinv evs) later
  have hdue : ∀ evs before e after,
      (Trace.run (step cx) (start cx disk now config notifyOnly readable) evs).world.log = before ++ e :: after →
        e.Due cx disk False before :=
    fun evs before e after hlog => (hinv evs).base.noted before e after hlog trivial
  refine ⟨fun evs later i => (hlater evs later).le i, fun evs later i => (hlater evs later).digest,
    fun evs => (hinv evs).base.synced, fun evs before i m u d after => hdue evs before (.offered i m u d) after,
    fun evs before m now after => hdue evs before (.download m now) after, ?_, ?_, fun evs => (hinv evs).base.logged, restore_json⟩
  · intro evs before m apk now' after hlog
    obtain ⟨earlier, i, began, d, hbefore, hpasses, hsuits, hoffered, -⟩ := hdue evs before (.install m apk now') after hlog
    exact ⟨earlier, i, began, d, hbefore, hpasses, hsuits, hoffered⟩
  · intro evs hpunctual before m apk now' after hlog
    have htimely : Inv cx disk True (Trace.run (step cx) (start cx disk now config notifyOnly readable) evs) :=
      inv_run (inv_start ..) fun _ => hpunctual
    have hinstall : (Entry.install m apk now').Due cx disk True before := htimely.base.noted before _ after hlog trivial
    obtain ⟨earlier, i, began, d, hbefore, -, -, -, hfresh⟩ := hinstall
    exact ⟨earlier, i, began, d, hbefore, hfresh trivial⟩

def Entry.stale : Entry → Bool
  | .install m _ now => decide (m.expires ≤ now)
  | _ => false

theorem expired_while_installing :
    ¬ ∀ evs before m apk now after,
      (Trace.run (step Demo.cx) (start Demo.cx .missing Demo.early (some Demo.config) false true) evs).world.log =
        before ++ Entry.install m apk now :: after → now < m.expires := by
  intro h
  have hstale : (Trace.run (step Demo.cx) (start Demo.cx .missing Demo.early (some Demo.config) false true)
      Demo.slowInstall).world.log.any Entry.stale = true := by decide +kernel
  obtain ⟨e, he, hs⟩ := List.any_eq_true.1 hstale
  obtain ⟨before, after, hlog⟩ := List.append_of_mem he
  cases e with
  | install m apk now => exact absurd (of_decide_eq_true hs) (not_le.2 (h Demo.slowInstall before m apk now after hlog))
  | _ => nomatch hs

end Arveil.Updates
