import Arveil.Spec.Routes
import Arveil.Proofs.Identity

/-! A route reads back as it was written, and one that is accepted derives its
identity from its root key. -/

namespace Arveil.Route

theorem hexDigit_ne_colon (n : UInt8) (h : n < 16) : hexDigit n ≠ 58 := by
  have hall : ∀ k : Fin 16, hexDigit (UInt8.ofNat k) ≠ 58 := by decide
  have hn : n.toNat < 16 := by simpa [UInt8.lt_iff_toNat_lt] using h
  simpa using hall ⟨n.toNat, hn⟩

theorem colon_not_mem_hexEncode (b : Bytes) : 58 ∉ hexEncode b := by
  induction b with
  | nil => exact List.not_mem_nil
  | cons x bs ih =>
    obtain ⟨hhi, hlo, -⟩ := nibbles x
    intro hmem
    rcases List.mem_cons.1 hmem with h | h
    · exact hexDigit_ne_colon _ hhi h.symm
    · rcases List.mem_cons.1 h with h | h
      · exact hexDigit_ne_colon _ hlo h.symm
      · exact ih h

@[simp] theorem hexField_hexEncode (context : String) (b : Bytes) : hexField context (hexEncode b) = .ok b := by
  unfold hexField
  rw [hexDecode_hexEncode]

theorem fields_text (identity device hash rootPublic mailbox cap hpke : Bytes) :
    fields ((text identity device hash rootPublic mailbox cap hpke).splitOn 58) =
      .ok ⟨identity, device, hash, rootPublic, mailbox, cap, hpke⟩ := by
  unfold text
  rw [List.splitOn_intercalate]
  · simp [fields, bind, Except.bind, pure, Except.pure]
  · intro part hpart
    simp only [List.mem_cons, List.not_mem_nil, or_false] at hpart
    rcases hpart with rfl | rfl | rfl | rfl | rfl | rfl | rfl | rfl | rfl
    · decide
    · decide
    all_goals exact colon_not_mem_hexEncode _
  · simp

theorem root_ok {cx : Crypto} {r : Route} {key : Bytes} (h : r.root cx = .ok key) : key = r.rootPublic := by
  unfold root at h
  split at h
  · cases h
  · split at h
    · cases h
    · next hk => exact Except.ok.inj h ▸ Identity.verifyingKey_eq hk

theorem parse_ok {cx : Crypto} {line : Bytes} {r : Route} (h : parse cx line = .ok r) :
    fields (line.splitOn 58) = .ok r ∧ Identity.identityId cx r.rootPublic = r.identityId := by
  unfold parse at h
  cases hf : fields (line.splitOn 58) with
  | error e => simp [hf, bind, Except.bind] at h
  | ok route =>
    simp only [hf, bind, Except.bind] at h
    cases hr : root cx route with
    | error e => simp [hr] at h
    | ok key =>
      simp only [hr] at h
      split at h
      · cases h
      · next hne =>
        obtain rfl := Except.ok.inj h
        exact ⟨rfl, by simpa [root_ok hr] using hne⟩

theorem parse_routeOfPeer {cx : Crypto} {p : Client.Peer} {line : Bytes} {r : Route}
    (ht : routeOfPeer p = some line) (h : parse cx line = .ok r) :
    r.identityId = p.identity ∧ r.deviceId = p.deviceId := by
  unfold routeOfPeer at ht
  split at ht
  · obtain rfl := Option.some.inj ht
    have hf := (parse_ok h).1
    rw [fields_text] at hf
    obtain rfl := Except.ok.inj hf
    exact ⟨rfl, rfl⟩
  · cases ht

end Arveil.Route
