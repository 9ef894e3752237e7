import Arveil.Proofs.Updates.Calls

/-! A check persists what it accepts before it offers it, and an announcement is tested against the
history it was read with. -/

namespace Arveil.Updates

open Dialog

variable {cx : Dart} {first : File} {timely : Prop}
variable {config : UpdateConfig}
variable {w : World}
variable {i : Hex64} {enabled : Option Bool} {attempt : Option Int} {accepted : Option UpdateManifest}

theorem saving_kept {w w' : World} (h : Kept w w') : w'.me.saving i enabled attempt accepted = w.me.saving i enabled attempt accepted := by
  simp only [Controller.saving, h.automatic, h.lastAttempt, h.histories]

def World.saved (cx : Dart) (w : World) (s : Saved) : World := { writes (s.json cx) w with me := w.me.adopt s }

theorem Ready.saved (h : Ready cx first timely config w) (s : Saved) : Ready cx first timely config (w.saved cx s) where
  synced _ _ := restore_json s
  logged := (stored_append w.log [.wrote (s.json cx)]).symm
  offered := h.offered.grown ⟨rfl, rfl, fun _ => rfl, fun _ => rfl, List.prefix_append _ _⟩
  noted := noted_append h.noted trivial
  config := h.config
  busy := h.busy

theorem grown_saved (w : World) (s : Saved) : Grown w (w.saved cx s) := ⟨rfl, rfl, fun _ => rfl, fun _ => rfl, List.prefix_append _ _⟩

theorem Ready.failed (h : Ready cx first timely config w) {disk : File} {log : List Entry} (hdisk : disk = stored first log)
    (hg : w.log <+: log) (hn : Noted cx first timely log) :
    Ready cx first timely config { w with me.stateFailed := true, disk := disk, log := log } where
  synced _ hf := nomatch hf
  logged := hdisk
  offered := h.offered.grown ⟨rfl, rfl, fun _ => rfl, fun _ => rfl, hg⟩
  noted := hn
  config := h.config
  busy := h.busy

theorem runs_save {Post : Except Failure Unit → World → Prop} (h : Ready cx first timely config w) (hf : w.me.stateFailed = false)
    (hrises : Advances w.me.histories (w.me.saving i enabled attempt accepted).histories)
    (hok : ∀ w', Meanwhile w w' → Post (.ok ()) (w'.saved cx (w.me.saving i enabled attempt accepted)))
    (herror : ∀ e w', Grown w w' → Ready cx first timely config w' → Post (.error e) w') :
    Runs cx first timely config Post (save cx i enabled attempt accepted) w := by
  refine waits_look_bind rfl (waits_question_bind ⟨h, hf, _, rfl, hrises⟩ fun w' hw a _ => ?_)
  have hready := h.meanwhile hw
  have hunwritten : Post (.error (.update "state")) { w' with me.stateFailed := true } := by
    refine herror _ _ (hw.grown.trans ⟨rfl, rfl, fun _ => rfl, fun _ => rfl, List.prefix_refl _⟩) ?_
    exact hready.failed hready.logged (List.prefix_refl _) hready.noted
  cases a with
  | done =>
    refine ⟨rfl, ?_⟩
    show Post (.ok ()) { writes ((w.me.saving i enabled attempt accepted).json cx) w' with
      me := w'.me.adopt (w'.me.saving i enabled attempt accepted) }
    rw [saving_kept hw.toKept]
    exact hok w' hw
  | failed e landed =>
    cases landed with
    | false => exact ⟨rfl, hunwritten⟩
    | true =>
      refine ⟨rfl, herror _ _ (hw.grown.trans ⟨rfl, rfl, fun _ => rfl, fun _ => rfl, List.prefix_append _ _⟩) ?_⟩
      exact hready.failed (stored_append w'.log [.wrote _]).symm (List.prefix_append _ _) (noted_append hready.noted trivial)
  | _ => exact ⟨rfl, hunwritten⟩

theorem kept_phase (w : World) (p : Phase) : Kept w { w with me.phase := p } := ⟨rfl, rfl, rfl, rfl, rfl, rfl, rfl, rfl, rfl⟩

theorem Ready.phase (h : Ready cx first timely config w) {p : Phase} (ho : Offered cx w p) : Ready cx first timely config { w with me.phase := p } :=
  h.kept (kept_phase w p) ho

theorem offered_quiet {w : World} (h : w.me.notifyOnly = false → w.me.phase.offers = false) : Offered cx w w.me.phase :=
  fun hn hp => absurd hp (by simp [h hn])

theorem offered_idle (w : World) {p : Phase} (hp : p.offers = false) : Offered cx w p := fun _ ht => absurd ht (by simp [hp])

theorem runs_keepOffer {previous : Phase} {Post : Except Failure Unit → World → Prop} (h : Ready cx first timely config w)
    (hoffered : Offered cx w previous) (hpost : ∀ r w', Ready cx first timely config w' → Post r w') :
    Runs cx first timely config Post (keepOffer cx config previous) w := by
  have hdrop : Runs cx first timely config Post dropOffer w := runs_dropOffer h fun r w' _ hw => hpost r w' hw
  refine waits_look_bind rfl ?_
  cases hm : w.me.manifest with
  | none => exact hdrop
  | some m =>
    by_cases hp : previous = .available ∨ previous = .ready
    · cases hf : w.me.freshness (identity cx config) m w.now with
      | ok u =>
        simp only [hp, hf, if_true]
        exact ⟨rfl, hpost _ _ (h.phase hoffered)⟩
      | error e =>
        simp only [hp, hf, if_true]
        exact hdrop
    · simp only [hp, if_false]
      exact hdrop

theorem assess_available {u : PlatformUpdate} {d : UpdateDevice} (h : assess cx (some u) d = .ok .available) :
    u.newerThan d = true ∧ u.compatibleWith cx d = .ok true := by
  unfold assess at h
  dsimp only at h
  by_cases hnew : u.newerThan d = true
  · rw [if_pos hnew] at h
    rcases hc : u.compatibleWith cx d with e | b
    · rw [hc] at h
      nomatch h
    · rw [hc] at h
      cases b with
      | false => nomatch h
      | true => exact ⟨hnew, rfl⟩
  · rw [if_neg hnew] at h
    nomatch h

theorem assess_phase {u : Option PlatformUpdate} {d : UpdateDevice} {p : Phase} (h : assess cx u d = .ok p) :
    p = .available ∨ p.offers = false := by
  cases u with
  | none => exact Or.inr (Except.ok.inj h ▸ rfl)
  | some u =>
    unfold assess at h
    dsimp only at h
    split_ifs at h
    · rcases hc : u.compatibleWith cx d with e | b
      · rw [hc] at h
        nomatch h
      · rw [hc] at h
        cases b with
        | false => exact Or.inr (Except.ok.inj h ▸ rfl)
        | true => exact Or.inl (Except.ok.inj h).symm
    · exact Or.inr (Except.ok.inj h ▸ rfl)

theorem assess_android (u : AndroidUpdate) (d : UpdateDevice) : ∃ p, assess cx (some (.android u)) d = .ok p := by
  unfold assess
  dsimp only
  split_ifs
  · cases hc : u.compatibleWith d with
    | false => exact ⟨.incompatible, by simp [PlatformUpdate.compatibleWith, hc, Bind.bind, Except.bind, Pure.pure, Except.pure]⟩
    | true => exact ⟨.available, by simp [PlatformUpdate.compatibleWith, hc, Bind.bind, Except.bind, Pure.pure, Except.pure]⟩
  · exact ⟨.current, rfl⟩

/-- An announcement goes on show right after it was kept. -/
theorem runs_offer {m : UpdateManifest} {d : UpdateDevice} {Post : Except Failure Unit → World → Prop} (h : Ready cx first timely config w)
    (hm : w.me.manifest = some m) (hdevice : .device d ∈ w.log)
    (hkept : ∃ earlier data, w.log = earlier ++ [Entry.wrote data] ∧ Persisted cx data (identity cx config) m)
    (hok : ∀ w', Ready cx first timely config w' → Post (.ok ()) w')
    (herror : ∀ e, w.me.notifyOnly = true → Post (.error e) w) :
    Runs cx first timely config Post (offer cx config m d) w := by
  have hset : ∀ p : Phase, p.offers = false → Post (.ok ()) { w with me.phase := p } := fun p hp =>
    hok _ (h.phase (offered_idle w hp))
  refine waits_look_bind rfl (waits_done_bind (fun p hp => ?_) fun e he => ?_)
  · cases ht : w.me.target m with
    | none =>
      rw [ht] at hp
      obtain rfl := Except.ok.inj hp
      exact ⟨rfl, hset .current rfl⟩
    | some u =>
      rw [ht] at hp
      by_cases hav : p = .available
      · subst hav
        obtain ⟨hnew, hcompat⟩ := assess_available hp
        have hnoted := h.note (e := .offered (identity cx config) m u d) ⟨hkept, hdevice, hnew, hcompat⟩ rfl
        refine ⟨rfl, rfl, hok _ (hnoted.phase fun hn _ config' m' hc' hm' => ?_)⟩
        obtain rfl := Option.some.inj (h.config.symm.trans hc')
        obtain rfl := Option.some.inj (hm.symm.trans hm')
        rw [Controller.target, if_neg (by simp [show w.me.notifyOnly = false from hn])] at ht
        obtain rfl := Option.some.inj ht
        exact ⟨d, List.mem_append_right _ List.mem_cons_self, hnew, Except.ok.inj hcompat⟩
      · have hidle : p.offers = false := (assess_phase hp).resolve_left hav
        cases p with
        | available => exact absurd rfl hav
        | _ => exact ⟨rfl, hset _ hidle⟩
  · refine herror e ?_
    by_contra hn
    rw [Controller.target, if_neg hn] at he
    obtain ⟨p, hp⟩ := @assess_android cx m.android d
    rw [hp] at he
    nomatch he

theorem persisted_saving (c : Controller) (i : Hex64) (m : UpdateManifest) :
    Persisted cx ((c.saving i none none (some m)).json cx) i m :=
  ⟨_, restore_json _, sequenceIn_accept c i m, digestIn_accept c i m⟩

theorem runs_tryCheck {p : Phase} {Post : Except Failure Unit → World → Prop} (h : Ready cx first timely config w)
    (hf : w.me.stateFailed = false) (hphase : w.me.phase = .checking) (hoffered : Offered cx w p)
    (hok : ∀ w', Ready cx first timely config w' → Post (.ok ()) w')
    (herror : ∀ e w', Ready cx first timely config w' → Offered cx w' p → Post (.error e) w') :
    Runs cx first timely config Post (tryCheck cx config) w := by
  have hgrown : ∀ e w', Grown w w' → Ready cx first timely config w' → Post (.error e) w' := fun e w' hg hw =>
    herror e w' hw (hoffered.grown hg)
  refine waits_look_bind rfl (waits_bind (runs_save h hf (.refl _) (fun w₁ hw₁ => ?_) fun e w' hg hw => hgrown e w' hg hw))
  -- the attempt is kept
  have h₁ := (h.meanwhile hw₁).saved (w.me.saving (identity cx config) none (some w.now) none)
  have hg₁ := hw₁.grown.trans (@grown_saved cx w₁ (w.me.saving (identity cx config) none (some w.now) none))
  have hf₁ : (w₁.saved cx (w.me.saving (identity cx config) none (some w.now) none)).me.stateFailed = false := hw₁.stateFailed.trans hf
  generalize w₁.saved cx (w.me.saving (identity cx config) none (some w.now) none) = w₂ at h₁ hg₁ hf₁
  refine waits_bind (runs_askDevice h₁ (fun d w₃ hw₃ => ?_) fun e w' hw => hgrown e w' (hg₁.trans hw.grown) (h₁.meanwhile hw))
  have h₃ := (h₁.meanwhile hw₃).told d
  have hg₃ := (hg₁.trans hw₃.grown).trans (grown_told w₃ d)
  have hf₃ : (w₃.told d).me.stateFailed = false := hw₃.stateFailed.trans hf₁
  have hd₃ : .device d ∈ (w₃.told d).log := List.mem_append_right _ List.mem_cons_self
  generalize w₃.told d = w₄ at h₃ hg₃ hf₃ hd₃
  refine waits_bind (runs_askManifest h₃ fun r w₅ hw₅ => ?_)
  have h₅ := h₃.meanwhile hw₅
  have hg₅ := hg₃.trans hw₅.grown
  cases r with
  | error e => exact hgrown e w₅ hg₅ h₅
  | ok wire =>
    refine waits_done_bind (fun m _ => ?_) fun e _ => hgrown e w₅ hg₅ h₅
    refine waits_look_bind rfl (waits_done_bind (fun u hfresh => ?_) fun e _ => hgrown e w₅ hg₅ h₅)
    refine waits_bind (runs_save h₅ (hw₅.stateFailed.trans hf₃) (advances_accept hfresh) (fun w₆ hw₆ => ?_)
      fun e w' hg hw => hgrown e w' (hg₅.trans hg) hw)
    -- the announcement is accepted
    have h₆ := (h₅.meanwhile hw₆).saved (w₅.me.saving (identity cx config) none none (some m))
    have hg₆ := (hg₅.trans hw₆.grown).trans (@grown_saved cx w₆ (w₅.me.saving (identity cx config) none none (some m)))
    have hlog₆ : (w₆.saved cx (w₅.me.saving (identity cx config) none none (some m))).log =
        w₆.log ++ [Entry.wrote ((w₅.me.saving (identity cx config) none none (some m)).json cx)] := rfl
    have hd₆ : .device d ∈ w₆.log := by rw [hw₆.log, hw₅.log]; exact hd₃
    generalize w₆.saved cx (w₅.me.saving (identity cx config) none none (some m)) = w₇ at h₆ hg₆ hlog₆
    refine waits_look_bind rfl ?_
    by_cases hstop : (w₇.me.disposed || w₇.me.cancelled) = true
    · simp only [hstop, if_true]
      exact hok w₇ h₆
    · simp only [hstop]
      refine waits_bind (runs_removeApk h₆ fun r w₈ hw₈ => ?_)
      cases r with
      | error e => exact hgrown e w₈ (hg₆.trans hw₈.grown) (h₆.meanwhile hw₈)
      | ok u =>
        have h₈ := h₆.meanwhile hw₈
        have hg₈ := hg₆.trans hw₈.grown
        have hquiet : w₈.me.notifyOnly = false → w₈.me.phase.offers = false := fun hn => by
          rw [hg₈.phase (hg₈.notifyOnly.symm.trans hn), hphase]
          rfl
        have hshown : Ready cx first timely config { w₈ with me.manifest := some m } :=
          h₈.kept ⟨rfl, rfl, rfl, rfl, rfl, rfl, rfl, rfl, rfl⟩ (offered_quiet hquiet)
        refine waits_write_bind rfl (runs_offer hshown rfl (hw₈.log ▸ hlog₆ ▸ List.mem_append_left _ hd₆)
          ⟨w₆.log, _, hw₈.log.trans hlog₆, persisted_saving _ _ _⟩ hok fun e hn => ?_)
        exact herror e _ hshown fun hn' => nomatch hn.symm.trans hn'

theorem runs_check {Post : Except Failure Unit → World → Prop} (h : Ready cx first timely config w) (hf : w.me.stateFailed = false)
    (hpost : ∀ r w', Ready cx first timely config w' → Post r w') : Runs cx first timely config Post (check cx config) w := by
  refine waits_look_bind rfl (waits_write_bind rfl ?_)
  have hchecking : Ready cx first timely config { w with me.phase := .checking } := h.phase (offered_idle w rfl)
  refine waits_bind (waits_attempt ?_)
  refine runs_tryCheck (p := w.me.phase) hchecking hf rfl h.offered (fun w' hw' => hpost _ w' hw') fun e w' hw' ho => ?_
  refine waits_bind (runs_keepOffer hw' ho fun r w'' hw'' => ?_)
  cases r with
  | ok u => exact hpost _ w'' hw''
  | error e' => exact hpost _ w'' hw''

end Arveil.Updates
