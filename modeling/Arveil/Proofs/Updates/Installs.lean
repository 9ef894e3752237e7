import Arveil.Proofs.Updates.Checks

/-! A download or an installation tests its offer again before it is used, with whatever the
platform answers. -/

namespace Arveil.Updates

open Dialog

variable {cx : Dart} {first : File} {timely : Prop}
variable {config : UpdateConfig}
variable {w : World}
theorem runs_downloaded {m : UpdateManifest} {Post : Except Failure Unit → World → Prop} (h : Ready cx first timely config w)
    (hf : w.me.stateFailed = false) (hm : OfferedBefore w.log (identity cx config) m) (hsome : w.me.manifest = some m)
    (hpost : ∀ r w', Ready cx first timely config w' → Post r w') : Runs cx first timely config Post (downloaded cx config m) w := by
  refine waits_bind (runs_fresh h hf (fun _ hw => ?_) fun e w' _ hw => hpost _ w' hw)
  refine waits_bind (runs_askAllowed hw fun r w' hw' _ => ?_)
  have hready := hw.meanwhile hw'
  cases r with
  | error e => exact hpost _ w' hready
  | ok allowed =>
    refine ⟨rfl, hpost _ _ (hready.kept ⟨rfl, rfl, rfl, rfl, rfl, rfl, rfl, rfl, rfl⟩ fun hn _ config' m' hc' hm' => ?_)⟩
    have hn' := hw'.notifyOnly.symm.trans hn
    obtain rfl := Option.some.inj (hready.config.symm.trans hc')
    obtain rfl := Option.some.inj (((hw'.manifest hn').trans hsome).symm.trans hm')
    rw [show w'.log = _ from hw'.log]
    exact hm.append _

theorem runs_download {Post : Except Failure Unit → World → Prop} (h : Ready cx first timely config w) (hf : w.me.stateFailed = false)
    (hpost : ∀ r w', Ready cx first timely config w' → Post r w') : Runs cx first timely config Post (download cx config) w := by
  refine waits_look_bind rfl ?_
  by_cases hn : w.me.notifyOnly = true
  · simp only [hn, if_true]
    exact hpost _ w h
  simp only [hn]
  cases hm : w.me.manifest with
  | none => exact hpost _ w h
  | some m =>
    by_cases hav : w.me.available = true
    · simp only [hav]
      have hnotify : w.me.notifyOnly = false := Bool.not_eq_true _ ▸ hn
      have hphase : w.me.phase.offers = true := by simpa [Controller.available, hm] using hav
      have hbefore := h.offered hnotify hphase config m h.config hm
      refine waits_bind (runs_fresh h hf (fun hfresh hw => ?_) fun e w' _ hw => hpost _ w' hw)
      refine waits_write_bind rfl (waits_write_bind rfl ?_)
      -- the download is noted right after the test
      have hdownloading := hw.phase (p := .downloading) fun hn _ config' m' hc' hm' => by
        obtain rfl := Option.some.inj (h.config.symm.trans hc')
        obtain rfl := Option.some.inj (hm.symm.trans hm')
        exact hbefore.append _
      have hstarted := hdownloading.note (e := .download m w.now) ⟨w.log, _, rfl, hfresh.append rfl, hbefore.append _⟩ rfl
      have hoffered : OfferedBefore ((w.log ++ [Entry.fresh (identity cx config) m w.now]) ++ [Entry.download m w.now])
          (identity cx config) m := (hbefore.append _).append _
      refine waits_bind (runs_askDownload hstarted fun r w₁ hw₁ => ?_)
      have h₁ := hstarted.meanwhile hw₁
      have hf₁ : w₁.me.stateFailed = false := hw₁.stateFailed.trans hf
      have hoffered₁ : OfferedBefore w₁.log (identity cx config) m := hw₁.log ▸ hoffered
      have hm₁ : w₁.me.manifest = some m := (hw₁.manifest hnotify).trans hm
      cases r with
      | error e => exact hpost _ w₁ h₁
      | ok file =>
        have h₂ : Ready cx first timely config { w₁ with me.apk := some file } :=
          h₁.meanwhile ⟨⟨rfl, rfl, rfl, rfl, rfl, rfl, rfl, rfl, rfl⟩, fun _ => rfl, fun _ => rfl⟩
        refine waits_write_bind rfl (waits_look_bind rfl ?_)
        by_cases hstop : (w₁.me.disposed || w₁.me.cancelled) = true
        · simp only [hstop, if_true]
          refine waits_bind (runs_removeApk h₂ fun r w' hw' => ?_)
          cases r with
          | error e => exact hpost _ w' (h₂.meanwhile hw')
          | ok u => exact hpost _ w' (h₂.meanwhile hw')
        · simp only [hstop]
          refine waits_bind (waits_attempt (runs_downloaded h₂ hf₁ hoffered₁ hm₁ fun r w' hw' => ?_))
          cases r with
          | ok u => exact hpost _ w' hw'
          | error e =>
            refine waits_bind (runs_removeApk hw' fun r w'' hw'' => ?_)
            cases r with
            | error e' => exact hpost _ w'' (hw'.meanwhile hw'')
            | ok u => exact hpost _ w'' (hw'.meanwhile hw'')
    · simp only [hav]
      exact hpost _ w h

theorem runs_handOver {m : UpdateManifest} {began : Int} {d : UpdateDevice} {earlier : List Entry}
    {Post : Except Failure Unit → World → Prop} (h : Ready cx first timely config w) (hm : w.me.manifest = some m)
    (hlog : w.log = earlier ++ [Entry.fresh (identity cx config) m began, .device d])
    (hfresh : Passes cx first w.log (identity cx config) m began) (hsuits : Suits m d)
    (hbefore : OfferedBefore w.log (identity cx config) m) (hlive : timely → w.now < m.expires)
    (hpost : ∀ r w', Ready cx first timely config w' → Post r w') :
    Runs cx first timely config Post (handOver m) w := by
  have hall : ∀ p, Offered cx w p := fun p _ _ config' m' hc' hm' => by
    obtain rfl := Option.some.inj (h.config.symm.trans hc')
    obtain rfl := Option.some.inj (hm.symm.trans hm')
    exact hbefore
  have hinstalling : Ready cx first timely config { w with me.phase := .installing } := h.phase (hall _)
  have hshown : ({ w with me.phase := .installing } : World).me.manifest = some m := hm
  have hlog₀ : ({ w with me.phase := .installing } : World).log = w.log := rfl
  have hnow₀ : ({ w with me.phase := .installing } : World).now = w.now := rfl
  refine waits_write_bind rfl (waits_look_bind rfl ?_)
  change Runs cx first timely config Post _ { w with me.phase := .installing }
  generalize ({ w with me.phase := .installing } : World) = v at hinstalling hshown hlog₀ hnow₀ ⊢
  rw [← hlog₀] at hlog hfresh hbefore
  cases hapk : v.me.apk with
  | none => exact hpost _ _ hinstalling
  | some apk =>
    have hnoted := hinstalling.note (e := .install m apk v.now)
      ⟨earlier, _, began, d, hlog, hfresh, hsuits, hbefore, fun ht => hfresh.later (hnow₀ ▸ hlive ht)⟩ rfl
    refine waits_write_bind rfl (waits_bind (waits_attempt (runs_askDone hnoted trivial (fun _ _ => rfl) fun r w₁ hw₁ => ?_)))
    have h₁ := hnoted.meanwhile hw₁
    cases r with
    | ok u =>
      refine waits_bind (runs_removeApk h₁ fun r w₂ hw₂ => ?_)
      cases r with
      | error e => exact hpost _ w₂ (h₁.meanwhile hw₂)
      | ok u => exact ⟨rfl, hpost _ _ ((h₁.meanwhile hw₂).phase (p := .current) (offered_idle w₂ rfl))⟩
    | error e =>
      by_cases he : e = .platform "package"
      · simp only [he, if_true]
        refine waits_bind (runs_removeApk h₁ fun r w₂ hw₂ => ?_)
        cases r with
        | error e => exact hpost _ w₂ (h₁.meanwhile hw₂)
        | ok u =>
          refine ⟨rfl, hpost _ _ ((h₁.meanwhile hw₂).phase (p := .available) fun hn _ config' m' hc' hm' => ?_)⟩
          have hw := hw₁.trans hw₂
          obtain rfl := Option.some.inj ((h₁.meanwhile hw₂).config.symm.trans hc')
          obtain rfl := Option.some.inj (((hw.manifest (hw.notifyOnly.symm.trans hn)).trans hshown).symm.trans hm')
          rw [hw.log]
          exact hbefore.append _
      · simp only [he]
        exact hpost _ w₁ h₁

theorem runs_install {Post : Except Failure Unit → World → Prop} (h : Ready cx first timely config w) (hf : w.me.stateFailed = false)
    (hpost : ∀ r w', Ready cx first timely config w' → Post r w') : Runs cx first timely config Post (install cx config) w := by
  refine waits_look_bind rfl ?_
  by_cases hn : w.me.notifyOnly = true
  · simp only [hn, if_true]
    exact hpost _ w h
  simp only [hn]
  cases hm : w.me.manifest with
  | none => exact hpost _ w h
  | some m =>
    by_cases hidle : (w.me.apk.isNone || w.me.phase ≠ .ready) = true
    · simp only [hidle, if_true]
      exact hpost _ w h
    · simp only [hidle]
      have hnotify : w.me.notifyOnly = false := Bool.not_eq_true _ ▸ hn
      have hready : w.me.phase = .ready := by
        by_contra hne
        exact hidle (by simp [hne])
      have hphase : w.me.phase.offers = true := by
        rw [hready]
        rfl
      have hbefore := h.offered hnotify hphase config m h.config hm
      refine waits_bind (runs_fresh h hf (fun hfresh hw => ?_) fun e w' _ hw => hpost _ w' hw)
      refine waits_bind (runs_askDevice hw (fun d w₁ hw₁ => ?_) fun e w' hw' => hpost _ w' (hw.meanwhile hw'))
      have h₁ := (hw.meanwhile hw₁).told d
      have hm₁ : (w₁.told d).me.manifest = some m := (hw₁.manifest hnotify).trans hm
      have hnotify₁ : (w₁.told d).me.notifyOnly = false := hw₁.notifyOnly.trans hnotify
      have hready₁ : (w₁.told d).me.phase = .ready := (hw₁.phase hnotify).trans hready
      have hlog₁ : (w₁.told d).log = w.log ++ [Entry.fresh (identity cx config) m w.now, .device d] := by
        rw [World.told, hw₁.log, List.append_assoc]
        rfl
      generalize w₁.told d = w₂ at h₁ hm₁ hlog₁ hnotify₁ hready₁
      -- a package that is no longer newer, or does not run here, goes
      have hgone : ∀ p : Phase, p.offers = false →
          Runs cx first timely config Post (removeApk >>= fun _ => set fun c => { c with phase := p }) w₂ := fun p hp => by
        refine waits_bind (runs_removeApk h₁ fun r w₃ hw₃ => ?_)
        cases r with
        | error e => exact hpost _ w₃ (h₁.meanwhile hw₃)
        | ok u => exact ⟨rfl, hpost _ _ ((h₁.meanwhile hw₃).phase (offered_idle w₃ hp))⟩
      by_cases hnew : m.android.newerThan d = true
      · by_cases hcompat : m.android.compatibleWith d = true
        · simp only [hnew, hcompat]
          refine waits_bind (runs_askAllowed h₁ fun r w₃ hw₃ hlive => ?_)
          have h₃ := h₁.meanwhile hw₃
          cases r with
          | error e => exact hpost _ w₃ h₃
          | ok allowed =>
            have hset : Meanwhile w₃ { w₃ with me.needsPermission := !allowed } :=
              ⟨⟨rfl, rfl, rfl, rfl, rfl, rfl, rfl, rfl, rfl⟩, fun _ => rfl, fun _ => rfl⟩
            have hw₄ := hw₃.trans hset
            refine waits_write_bind rfl ?_
            cases allowed with
            | false => exact hpost _ _ (h₃.meanwhile hset)
            | true =>
              have hm₃ : w₃.me.manifest = some m := (hw₃.manifest hnotify₁).trans hm₁
              have hlog₄ := hw₄.log.trans hlog₁
              refine runs_handOver (h₃.meanwhile hset) hm₃ hlog₄ ?_ ⟨hnew, hcompat⟩ ?_ (fun ht => ?_) hpost
              · rw [hlog₄]
                exact hfresh.append rfl
              · rw [hlog₄]
                exact hbefore.append _
              · exact hlive rfl ht rfl rfl ((hw₃.phase hnotify₁).trans hready₁) m hm₃
        · simp only [hnew, hcompat]
          exact hgone .incompatible rfl
      · simp only [hnew]
        exact hgone .current rfl

theorem runs_run {operation : Op Unit} (h : Base cx first timely w) (hc : w.me.config = some config)
    (hop : ∀ w', Ready cx first timely config w' → w'.me.stateFailed = w.me.stateFailed →
      Runs cx first timely config (fun _ w'' => Ready cx first timely config w'') operation w') :
    Runs cx first timely config (fun _ w' => Base cx first timely w' ∧ w'.me.busy = false) (run operation) w := by
  have htaken : Ready cx first timely config { w with me.busy := true, me.cancelled := false, me.error := none } :=
    ⟨⟨h.synced, h.offered, h.logged, h.noted⟩, hc, rfl⟩
  have hsettled : ∀ {v : World}, Ready cx first timely config v → Base cx first timely { v with me.busy := false, me.phase := v.me.phase.settled } :=
    fun {v} hv => by
      refine ⟨hv.synced, fun hn hp config m hc hm => hv.offered hn ?_ config m hc hm, hv.logged, hv.noted⟩
      have hphase : v.me.phase.settled.offers = true := hp
      cases hcase : v.me.phase <;> rw [hcase] at hphase <;> first | rfl | nomatch hphase
  refine waits_write_bind rfl (waits_bind (waits_attempt (waits_mono (fun r v hv => ?_) (hop _ htaken rfl))))
  cases r with
  | ok u => exact ⟨rfl, hsettled hv, rfl⟩
  | error e =>
    have hshown : Ready cx first timely config { v with me.error := errorOf v.me.cancelled e } :=
      ⟨⟨hv.synced, hv.offered, hv.logged, hv.noted⟩, hv.config, hv.busy⟩
    exact waits_write_bind rfl ⟨rfl, hsettled hshown, rfl⟩

theorem runs_setAutomatic {b : Bool} (h : Ready cx first timely config w) (hf : w.me.stateFailed = false) :
    Runs cx first timely config (fun _ w' => Ready cx first timely config w') (save cx (identity cx config) (some b) none none) w :=
  runs_save h hf (.refl _) (fun _ hw => (h.meanwhile hw).saved _) fun _ _ _ hw => hw

end Arveil.Updates
