import Arveil.Proofs.UpdateSigner.Releases

/-! The release signer and the app hold an announcement to almost the same rules. Where they differ,
in digits that are not ASCII, in the length of a version component and in what counts as a URL, the
signer writes announcements that no app reads. -/

namespace Arveil.Updates.Signer

variable {cx : Dart} {py : Python}

theorem verify_ok_iff {i : Input} {s : Signed} (h : sign py i = .ok s) (hu : Understood cx py s) {config : UpdateConfig}
    (hkey : config.publicKey = s.announcement.publicKey) (hchannel : config.channel = s.announcement.channel) (m : UpdateManifest) :
    verify cx s.envelope config = .ok m ↔ announced cx (py.dumps s.announcement.payload) s.announcement.channel = .ok m := by
  simp only [verify, signedPayload_ok h hu hkey, hchannel, Bind.bind, Except.bind]
  rcases announced cx (py.dumps s.announcement.payload) s.announcement.channel with e | m'
  · cases e <;> simp
  · exact Iff.rfl

theorem plain_of_verify {i : Input} {s : Signed} (h : sign py i = .ok s) (hu : Understood cx py s) {config : UpdateConfig}
    (hkey : config.publicKey = s.announcement.publicKey) (hchannel : config.channel = s.announcement.channel) {m : UpdateManifest}
    (hm : verify cx s.envelope config = .ok m) : Plain cx i :=
  (announced_same (sign_ok h).1 hu ((verify_ok_iff h hu hkey hchannel m).1 hm)).2

/-- The app reads an envelope that the signer wrote, as it was signed, exactly when its version and minimum system are of
short ASCII digits and its URLs are such for the app. -/
theorem signed_verifies_iff {i : Input} {s : Signed} (h : sign py i = .ok s) (hu : Understood cx py s) {config : UpdateConfig}
    (hkey : config.publicKey = s.announcement.publicKey) (hchannel : config.channel = s.announcement.channel) :
    (∃ m, verify cx s.envelope config = .ok m ∧ Same cx s.announcement m) ↔ Plain cx i := by
  have hp := (sign_ok h).1
  constructor
  · rintro ⟨m, hm, -⟩
    exact plain_of_verify h hu hkey hchannel hm
  · intro hplain
    obtain ⟨m, hm⟩ := announced_accepts hp hu hplain
    exact ⟨m, (verify_ok_iff h hu hkey hchannel m).2 hm, (announced_same hp hu hm).1⟩

open Arveil.Updates.Signer.Demo in
/-- A release in ASCII digits is read as it was signed. -/
theorem narrow_verifies : ∃ m, verify narrow.cx narrow.signed.envelope Demo.config = .ok m ∧ Same narrow.cx narrow.signed.announcement m :=
  (signed_verifies_iff narrow_signed narrow_understood rfl rfl).2 narrow_plain

open Arveil.Updates.Signer.Demo in
/-- With its version in fullwidth digits the release is signed, and no app reads it. -/
theorem wide_refused :
    ¬ ∀ (cx : Dart) (py : Python) (i : Input) (s : Signed), sign py i = .ok s → Understood cx py s →
      ∀ config : UpdateConfig, config.publicKey = s.announcement.publicKey → config.channel = s.announcement.channel →
        ∃ m, verify cx s.envelope config = .ok m ∧ Same cx s.announcement m := by
  intro h
  obtain ⟨m, hm, -⟩ := h wide.cx wide.py wide.input wide.signed wide_signed wide_understood Demo.config rfl rfl
  have hplain := plain_of_verify wide_signed wide_understood rfl rfl hm
  have hdigits := hplain.version _ _ rfl rfl
  exact absurd hdigits (by decide)

end Arveil.Updates.Signer
