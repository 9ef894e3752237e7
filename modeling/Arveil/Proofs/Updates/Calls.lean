import Arveil.Proofs.Updates.Histories

/-! What holds while an operation of the controller runs. Between a question and its answer others
may write, and each call to the platform keeps what the operation goes by. -/

namespace Arveil.Updates

open Dialog

variable {cx : Dart} {first : File} {timely : Prop}

/-- An announcement on show was offered. -/
def Offered (cx : Dart) (w : World) (p : Phase) : Prop :=
  w.me.notifyOnly = false → p.offers = true → ∀ config m, w.me.config = some config → w.me.manifest = some m →
    OfferedBefore w.log (identity cx config) m

structure Base (cx : Dart) (first : File) (timely : Prop) (w : World) : Prop where
  /-- Memory has what the store has, as long as no read or write failed. -/
  synced : w.me.config.isSome = true → w.me.stateFailed = false →
    w.disk.load cx = .ok ⟨w.me.automatic, w.me.lastAttempt, w.me.histories⟩
  offered : Offered cx w w.me.phase
  logged : w.disk = stored first w.log
  noted : Noted cx first timely w.log

structure Ready (cx : Dart) (first : File) (timely : Prop) (config : UpdateConfig) (w : World) : Prop extends Base cx first timely w where
  config : w.me.config = some config
  busy : w.me.busy = true

/-- What operations leave alone beside their own purpose. -/
structure Kept (a b : World) : Prop where
  config : b.me.config = a.me.config
  notifyOnly : b.me.notifyOnly = a.me.notifyOnly
  automatic : b.me.automatic = a.me.automatic
  lastAttempt : b.me.lastAttempt = a.me.lastAttempt
  histories : b.me.histories = a.me.histories
  stateFailed : b.me.stateFailed = a.me.stateFailed
  busy : b.me.busy = a.me.busy
  disk : b.disk = a.disk
  log : b.log = a.log

theorem Kept.refl (w : World) : Kept w w := ⟨rfl, rfl, rfl, rfl, rfl, rfl, rfl, rfl, rfl⟩

theorem Kept.trans {a b c : World} (h : Kept a b) (h' : Kept b c) : Kept a c where
  config := h'.config.trans h.config
  notifyOnly := h'.notifyOnly.trans h.notifyOnly
  automatic := h'.automatic.trans h.automatic
  lastAttempt := h'.lastAttempt.trans h.lastAttempt
  histories := h'.histories.trans h.histories
  stateFailed := h'.stateFailed.trans h.stateFailed
  busy := h'.busy.trans h.busy
  disk := h'.disk.trans h.disk
  log := h'.log.trans h.log

/-- What happens while an operation waits. Only on the Mac may an offer go meanwhile. -/
structure Meanwhile (a b : World) : Prop extends Kept a b where
  phase : a.me.notifyOnly = false → b.me.phase = a.me.phase
  manifest : a.me.notifyOnly = false → b.me.manifest = a.me.manifest

theorem Meanwhile.refl (w : World) : Meanwhile w w := ⟨.refl w, fun _ => rfl, fun _ => rfl⟩

theorem Meanwhile.trans {a b c : World} (h : Meanwhile a b) (h' : Meanwhile b c) : Meanwhile a c where
  toKept := h.toKept.trans h'.toKept
  phase hn := (h'.phase (h.notifyOnly.trans hn)).trans (h.phase hn)
  manifest hn := (h'.manifest (h.notifyOnly.trans hn)).trans (h.manifest hn)

/-- The steps of a check up to its offer: the log grows, the offer stays. -/
structure Grown (a b : World) : Prop where
  config : b.me.config = a.me.config
  notifyOnly : b.me.notifyOnly = a.me.notifyOnly
  phase : a.me.notifyOnly = false → b.me.phase = a.me.phase
  manifest : a.me.notifyOnly = false → b.me.manifest = a.me.manifest
  log : a.log <+: b.log

theorem Meanwhile.grown {a b : World} (h : Meanwhile a b) : Grown a b := 
  ⟨h.config, h.notifyOnly, h.phase, h.manifest, h.log ▸ List.prefix_refl _⟩

theorem Grown.trans {a b c : World} (h : Grown a b) (h' : Grown b c) : Grown a c where
  config := h'.config.trans h.config
  notifyOnly := h'.notifyOnly.trans h.notifyOnly
  phase hn := (h'.phase (h.notifyOnly.trans hn)).trans (h.phase hn)
  manifest hn := (h'.manifest (h.notifyOnly.trans hn)).trans (h.manifest hn)
  log := h.log.trans h'.log

theorem Offered.grown {a b : World} {p : Phase} (h : Offered cx a p) (hg : Grown a b) : Offered cx b p := by
  intro hn hp config m hc hm
  have hna : a.me.notifyOnly = false := hg.notifyOnly.symm.trans hn
  obtain ⟨es, hlog⟩ := hg.log
  rw [← hlog]
  exact (h hna hp config m (hg.config.symm.trans hc) ((hg.manifest hna).symm.trans hm)).append es

theorem Base.kept {a b : World} (h : Base cx first timely a) (hk : Kept a b) (ho : Offered cx b b.me.phase) : Base cx first timely b where
  synced hc hf := by
    rw [hk.disk, hk.automatic, hk.lastAttempt, hk.histories]
    exact h.synced (hk.config ▸ hc) (hk.stateFailed ▸ hf)
  offered := ho
  logged := by rw [hk.disk, hk.log]; exact h.logged
  noted := hk.log ▸ h.noted

theorem Base.meanwhile {a b : World} (h : Base cx first timely a) (hk : Meanwhile a b) : Base cx first timely b := by
  refine h.kept hk.toKept fun hn => ?_
  have hna := hk.notifyOnly.symm.trans hn
  rw [hk.phase hna]
  exact h.offered.grown hk.grown hn

variable {config : UpdateConfig}

theorem Ready.kept {a b : World} (h : Ready cx first timely config a) (hk : Kept a b) (ho : Offered cx b b.me.phase) : Ready cx first timely config b :=
  ⟨h.toBase.kept hk ho, hk.config.trans h.config, hk.busy.trans h.busy⟩

theorem Ready.meanwhile {a b : World} (h : Ready cx first timely config a) (hk : Meanwhile a b) : Ready cx first timely config b :=
  ⟨h.toBase.meanwhile hk, hk.config.trans h.config, hk.busy.trans h.busy⟩

/-- A write that an operation waits for only raises the histories. -/
def Rises (cx : Dart) (q : Question) (w : World) : Prop :=
  match q with
  | .write data => w.me.stateFailed = false ∧ ∃ s : Saved, data = s.json cx ∧ Advances w.me.histories s.histories
  | _ => True

/-- What holds whenever an operation waits. -/
def Waiting (cx : Dart) (first : File) (timely : Prop) (config : UpdateConfig) (q : Question) (w : World) : Prop := Ready cx first timely config w ∧ Rises cx q w

theorem Waiting.meanwhile {q : Question} {a b : World} (h : Waiting cx first timely config q a) (hk : Meanwhile a b) : Waiting cx first timely config q b := by
  refine ⟨h.1.meanwhile hk, ?_⟩
  unfold Rises at *
  cases q with
  | write data =>
    obtain ⟨hf, s, rfl, ha⟩ := h.2
    exact ⟨hk.stateFailed.trans hf, s, rfl, hk.histories ▸ ha⟩
  | _ => trivial

/-- Only a write that reached the store changes it. -/
def SameDisk (a b : World) : Prop := b.disk = a.disk

/-- The answer that lets an installation go on comes before the announcement expires. -/
def InTime (q : Question) (a : Answer) (w : World) : Prop :=
  q = .allowed → a = .allowed true → w.me.phase = .ready → ∀ m ∈ w.me.manifest, w.now < m.expires

/-- An operation of the controller, followed by its waits. -/
abbrev Runs (cx : Dart) (first : File) (timely : Prop) (config : UpdateConfig) {α : Type} (Post : Except Failure α → World → Prop)
    (t : Op α) (w : World) : Prop :=
  Waits SameDisk (Waiting cx first timely config) Meanwhile (fun q a w => timely → InTime q a w) land Post t w

section calls

variable {w : World}

theorem runs_askDone {q : Question} {Post : Except Failure Unit → World → Prop} (h : Ready cx first timely config w) (hr : Rises cx q w)
    (hq : ∀ a v, land q a v = v) (hpost : ∀ r w', Meanwhile w w' → Post r w') : Runs cx first timely config Post (askDone q) w := by
  refine waits_question_bind ⟨h, hr⟩ fun w' hw a _ => ?_
  rw [hq]
  cases a <;> exact hpost _ w' hw

theorem runs_askManifest {feed : Uri} {Post : Except Failure Bytes → World → Prop} (h : Ready cx first timely config w)
    (hpost : ∀ r w', Meanwhile w w' → Post r w') : Runs cx first timely config Post (askManifest feed) w := by
  refine waits_question_bind ⟨h, trivial⟩ fun w' hw a _ => ?_
  cases a <;> exact hpost _ w' hw

theorem runs_askDownload {u : AndroidUpdate} {Post : Except Failure String → World → Prop} (h : Ready cx first timely config w)
    (hpost : ∀ r w', Meanwhile w w' → Post r w') : Runs cx first timely config Post (askDownload u) w := by
  refine waits_question_bind ⟨h, trivial⟩ fun w' hw a _ => ?_
  cases a <;> exact hpost _ w' hw

theorem runs_askAllowed {Post : Except Failure Bool → World → Prop} (h : Ready cx first timely config w)
    (hpost : ∀ r w', Meanwhile w w' → (r = .ok true → timely → InTime .allowed (.allowed true) w') → Post r w') :
    Runs cx first timely config Post askAllowed w := by
  refine waits_question_bind ⟨h, trivial⟩ fun w' hw a ha => ?_
  cases a with
  | allowed b =>
    refine hpost _ w' hw fun hb => ?_
    obtain rfl := Except.ok.inj hb
    exact ha
  | _ => exact hpost _ w' hw fun hb => nomatch hb

/-- The device that the platform told is noted and kept. -/
def World.told (w : World) (d : UpdateDevice) : World :=
  { w with me.device := some d, log := w.log ++ [Entry.device d] }

theorem noted_append {log : List Entry} {e : Entry} (h : Noted cx first timely log) (he : e.Due cx first timely log) : Noted cx first timely (log ++ [e]) :=
  Log.Preceded.append h fun _ => he

theorem Ready.note {e : Entry} (h : Ready cx first timely config w) (he : e.Due cx first timely w.log)
    (hdisk : e.leaves (stored first w.log) = stored first w.log) : Ready cx first timely config { w with log := w.log ++ [e] } where
  synced := h.synced
  logged := h.logged.trans ((stored_append w.log [e]).trans hdisk).symm
  offered := h.offered.grown ⟨rfl, rfl, fun _ => rfl, fun _ => rfl, List.prefix_append _ _⟩
  noted := noted_append h.noted he
  config := h.config
  busy := h.busy

theorem Ready.told (h : Ready cx first timely config w) (d : UpdateDevice) : Ready cx first timely config (w.told d) where
  synced := h.synced
  logged := h.logged.trans (stored_append w.log [.device d]).symm
  offered := h.offered.grown ⟨rfl, rfl, fun _ => rfl, fun _ => rfl, List.prefix_append _ _⟩
  noted := noted_append h.noted trivial
  config := h.config
  busy := h.busy

theorem grown_told (w : World) (d : UpdateDevice) : Grown w (w.told d) := ⟨rfl, rfl, fun _ => rfl, fun _ => rfl, List.prefix_append _ _⟩

theorem runs_askDevice {Post : Except Failure UpdateDevice → World → Prop} (h : Ready cx first timely config w)
    (hok : ∀ d w', Meanwhile w w' → Post (.ok d) (w'.told d)) (herror : ∀ e w', Meanwhile w w' → Post (.error e) w') :
    Runs cx first timely config Post askDevice w := by
  refine waits_question_bind ⟨h, trivial⟩ fun w' hw a _ => ?_
  cases a with
  | device d => exact ⟨rfl, rfl, hok d w' hw⟩
  | _ => exact herror _ w' hw

theorem runs_removeApk {Post : Except Failure Unit → World → Prop} (h : Ready cx first timely config w)
    (hpost : ∀ r w', Meanwhile w w' → Post r w') : Runs cx first timely config Post removeApk w := by
  have hcleared : Meanwhile w { w with me.apk := none } :=
    ⟨⟨rfl, rfl, rfl, rfl, rfl, rfl, rfl, rfl, rfl⟩, fun _ => rfl, fun _ => rfl⟩
  refine waits_look_bind rfl (waits_write_bind rfl ?_)
  cases hapk : w.me.apk with
  | none => exact hpost _ _ hcleared
  | some path =>
    exact runs_askDone (h.meanwhile hcleared) trivial (fun _ _ => rfl) fun r w' hw => hpost r w' (hcleared.trans hw)

theorem runs_dropOffer {Post : Except Failure Unit → World → Prop} (h : Ready cx first timely config w)
    (hpost : ∀ r w', Kept w w' → Ready cx first timely config w' → Post r w') : Runs cx first timely config Post dropOffer w := by
  have hdropped : Kept w { w with me.manifest := none } := ⟨rfl, rfl, rfl, rfl, rfl, rfl, rfl, rfl, rfl⟩
  have hready : Ready cx first timely config { w with me.manifest := none } := h.kept hdropped fun _ _ _ m _ hm => nomatch hm
  refine waits_write_bind rfl (waits_bind (runs_removeApk hready fun r w' hw => ?_))
  have hkept := hdropped.trans hw.toKept
  cases r with
  | error e => exact hpost _ w' hkept (hready.meanwhile hw)
  | ok u =>
    have hidle : Kept w' { w' with me.phase := .idle } := ⟨rfl, rfl, rfl, rfl, rfl, rfl, rfl, rfl, rfl⟩
    exact ⟨rfl, hpost _ _ (hkept.trans hidle) ((hready.meanwhile hw).kept hidle fun _ hp => nomatch hp)⟩

theorem Ready.histories (h : Ready cx first timely config w) (hf : w.me.stateFailed = false) :
    historiesOf cx (stored first w.log) = w.me.histories := by
  rw [← h.logged, historiesOf, h.synced (h.config ▸ rfl) hf]

theorem runs_fresh {m : UpdateManifest} {Post : Except Failure Unit → World → Prop} (h : Ready cx first timely config w)
    (hf : w.me.stateFailed = false)
    (hok : Passes cx first w.log (identity cx config) m w.now →
      Ready cx first timely config { w with log := w.log ++ [Entry.fresh (identity cx config) m w.now] } →
      Post (.ok ()) { w with log := w.log ++ [Entry.fresh (identity cx config) m w.now] })
    (herror : ∀ e w', Kept w w' → Ready cx first timely config w' → Post (.error e) w') : Runs cx first timely config Post (fresh cx config m) w := by
  refine waits_look_bind rfl ?_
  cases hfresh : w.me.freshness (identity cx config) m w.now with
  | ok u =>
    have hpasses : Passes cx first w.log (identity cx config) m w.now := by
      rw [Passes, h.histories hf]
      exact hfresh
    exact ⟨rfl, hok hpasses (h.note hpasses rfl)⟩
  | error e =>
    refine waits_bind (runs_dropOffer h fun r w' hk hw => ?_)
    cases r with
    | error e' => exact herror e' w' hk hw
    | ok u => exact herror e w' hk hw

end calls

end Arveil.Updates
