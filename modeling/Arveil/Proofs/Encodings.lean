import Arveil.Proofs.Identity
import Arveil.Sanity.Cbor

/-! Two readers of the same signed bytes. The relay and the core verify the same objects
but for what their CBOR readers let pass, and the core's lets every object be written in
more than one way. -/

namespace Arveil.Identity

variable {cx : Crypto} {items : CborItems}

theorem unmarshal_eq_some {φ α : Type} {item : Bytes → Option (φ × Bytes)} {first : φ → α} {b : Bytes} {a : α} :
    unmarshal item first b = some a ↔ ∃ f, item b = some (f, []) ∧ first f = a := by
  unfold unmarshal
  split
  · next f heq => simp [heq]
  · next hno =>
    constructor
    · intro h
      cases h
    · rintro ⟨f, hf, -⟩
      exact absurd hf (hno f)

theorem fromReader_eq_some {φ α : Type} {item : Bytes → Option (φ × Bytes)} {Once : φ → Prop} [DecidablePred Once]
    {first : φ → α} {b : Bytes} {a : α} :
    fromReader item Once first b = some a ↔ ∃ f rest, item b = some (f, rest) ∧ Once f ∧ first f = a := by
  unfold fromReader
  split
  · next f rest heq =>
    by_cases hf : Once f
    · simp [heq, hf]
    · simp only [hf, if_false, heq, Option.some.injEq, Prod.mk.injEq]
      constructor
      · intro h
        cases h
      · rintro ⟨f', rest', ⟨rfl, rfl⟩, hf', -⟩
        exact absurd hf' hf
  · next hnone => simp [hnone]

theorem toOption_eq_some {ε α : Type} {r : Except ε α} {a : α} : r.toOption = some a ↔ r = .ok a := by
  cases r <;> simp [Except.toOption]

theorem ite_error_eq_ok {ε α : Type} {p : Prop} [Decidable p] {e : ε} {x : Except ε α} {a : α} :
    (if p then .error e else x) = .ok a ↔ ¬ p ∧ x = .ok a := by
  by_cases hp : p <;> simp [hp]

theorem ite_ok_eq_ok {ε α : Type} {p : Prop} [Decidable p] {e : ε} {x : Except ε α} {a : α} :
    (if p then x else .error e) = .ok a ↔ p ∧ x = .ok a := by
  by_cases hp : p <;> simp [hp]

theorem verify_ok_iff {signed key body : Bytes} {context : String} :
    verify cx signed context key = .ok body ↔ ∃ so, cx.decodeSigned signed = .ok so ∧ so.context = context ∧
      so.signature.length = 64 ∧ cx.verifyStrict key (signingInput so.context so.body) so.signature = true ∧
      so.body = body := by
  unfold verify
  cases hs : cx.decodeSigned signed with
  | error e => simp
  | ok so => simp only [ite_error_eq_ok, ite_ok_eq_ok, not_not, Except.ok.injEq, exists_eq_left', ne_eq]

theorem verifyManifest_ok_iff {signed root : Bytes} {body : DeviceManifest} :
    verifyManifest cx signed root = .ok body ↔ ∃ bytes, verify cx signed manifestContext root = .ok bytes ∧
      cx.decodeManifest bytes = .ok body ∧ body.version = manifestVersion ∧ body.identityId = identityId cx root := by
  unfold verifyManifest
  cases hs : verify cx signed manifestContext root with
  | error e => simp
  | ok bytes =>
    simp only [Except.ok.injEq, exists_eq_left']
    cases hm : cx.decodeManifest bytes with
    | error e => simp
    | ok m =>
      simp only [ite_error_eq_ok, not_not, Except.ok.injEq, ne_eq]
      constructor
      · rintro ⟨hver, hid, rfl⟩
        exact ⟨rfl, hver, hid⟩
      · rintro ⟨rfl, hver, hid⟩
        exact ⟨hver, hid, rfl⟩

theorem acceptManifest_none_iff {signed root : Bytes} {body : DeviceManifest} {state : ManifestState} :
    acceptManifest cx signed root none = .ok (body, state) ↔
      verifyManifest cx signed root = .ok body ∧ state = ⟨body.manifestSequence, manifestHash cx signed⟩ := by
  unfold acceptManifest
  cases hv : verifyManifest cx signed root with
  | error e => simp
  | ok b =>
    simp only [checkChain, Except.ok.injEq, Prod.mk.injEq]
    constructor
    · rintro ⟨rfl, rfl⟩
      exact ⟨rfl, rfl⟩
    · rintro ⟨rfl, rfl⟩
      exact ⟨rfl, rfl⟩

/-- The bytes hold a signed manifest of the root, whatever follows it or its body, and with
zero where a field is absent. -/
structure ReadableManifest (cx : Crypto) (items : CborItems) (signed root : Bytes) (f : SignedFields) (rest : Bytes)
    (g : ManifestFields) (rest' : Bytes) : Prop where
  wrapper : items.signed signed = some (f, rest)
  context : f.first.context = manifestContext
  signature : RelayIdentity.ed25519Verify cx root (signingInput f.first.context f.first.body) f.first.signature = true
  body : items.manifest f.first.body = some (g, rest')
  version : g.first.version = manifestVersion
  identity : g.first.identityId = identityId cx root

theorem openSigned_ok_iff {signed key body : Bytes} {context : String} :
    RelayIdentity.openSigned cx items signed context key = .ok body ↔ key.length = 32 ∧
      ∃ f, items.signed signed = some (f, []) ∧ f.first.context = context ∧
        RelayIdentity.ed25519Verify cx key (signingInput f.first.context f.first.body) f.first.signature = true ∧
        f.first.body = body := by
  unfold RelayIdentity.openSigned
  cases hu : unmarshal items.signed SignedFields.first signed with
  | none =>
    simp only [reduceCtorEq, false_iff, not_and, not_exists]
    rintro - f hf -
    rw [unmarshal_eq_some.2 ⟨f, hf, rfl⟩] at hu
    cases hu
  | some so =>
    obtain ⟨f, hf, rfl⟩ := unmarshal_eq_some.1 hu
    simp only [hf, ite_error_eq_ok, not_or, not_not, ne_eq, Bool.not_eq_false, Except.ok.injEq, Option.some.injEq,
      Prod.mk.injEq, and_true, exists_eq_left']
    constructor
    · rintro ⟨hc, ⟨hl, hsig⟩, hbody⟩
      exact ⟨hl, hc, hsig, hbody⟩
    · rintro ⟨hl, hc, hsig, hbody⟩
      exact ⟨hc, ⟨hl, hsig⟩, hbody⟩

theorem relay_verifyManifest_iff {signed root : Bytes} (hroot : root.length = 32) {m : DeviceManifest} :
    RelayIdentity.verifyManifest cx items signed root = .ok m ↔
      ∃ f g, ReadableManifest cx items signed root f [] g [] ∧ g.first = m := by
  unfold RelayIdentity.verifyManifest
  constructor
  · intro h
    cases ho : RelayIdentity.openSigned cx items signed manifestContext root with
    | error e => simp [ho] at h
    | ok body =>
      obtain ⟨-, f, hf, hc, hsig, rfl⟩ := openSigned_ok_iff.1 ho
      simp only [ho] at h
      cases hu : unmarshal items.manifest ManifestFields.first f.first.body with
      | none => simp [hu] at h
      | some m' =>
        obtain ⟨g, hg, rfl⟩ := unmarshal_eq_some.1 hu
        simp only [hu, ite_error_eq_ok, not_not, ne_eq, Except.ok.injEq] at h
        exact ⟨f, g, ⟨hf, hc, hsig, hg, h.1, h.2.1⟩, h.2.2⟩
  · rintro ⟨f, g, h, rfl⟩
    rw [openSigned_ok_iff.2 ⟨hroot, f, h.wrapper, h.context, h.signature, rfl⟩]
    simp only [unmarshal_eq_some.2 ⟨g, h.body, rfl⟩, ite_error_eq_ok, not_not, ne_eq]
    exact ⟨h.version, h.identity, trivial⟩

theorem core_verifyManifest_iff (hread : items.ReadBy cx) {signed root : Bytes} (hroot : cx.validKey root = true)
    {m : DeviceManifest} : verifyManifest cx signed root = .ok m ↔
      ∃ f rest g rest', ReadableManifest cx items signed root f rest g rest' ∧ (f.Once ∧ g.Once) ∧ g.first = m := by
  rw [verifyManifest_ok_iff]
  constructor
  · rintro ⟨bytes, hv, hm, hver, hid⟩
    obtain ⟨so, hs, hc, hl, hsig, rfl⟩ := verify_ok_iff.1 hv
    obtain ⟨f, rest, hitem, honce, rfl⟩ := fromReader_eq_some.1 ((hread.signed signed).symm.trans (toOption_eq_some.2 hs))
    obtain ⟨g, rest', hitem', honce', rfl⟩ := fromReader_eq_some.1 ((hread.manifest _).symm.trans (toOption_eq_some.2 hm))
    refine ⟨f, rest, g, rest', ⟨hitem, hc, ?_, hitem', hver, hid⟩, ⟨honce, honce'⟩, rfl⟩
    simp [RelayIdentity.ed25519Verify, hroot, hl, hsig]
  · rintro ⟨f, rest, g, rest', h, ⟨honce, honce'⟩, rfl⟩
    have hs : cx.decodeSigned signed = .ok f.first :=
      toOption_eq_some.1 ((hread.signed signed).trans (fromReader_eq_some.2 ⟨f, rest, h.wrapper, honce, rfl⟩))
    have hm : cx.decodeManifest f.first.body = .ok g.first :=
      toOption_eq_some.1 ((hread.manifest _).trans (fromReader_eq_some.2 ⟨g, rest', h.body, honce', rfl⟩))
    have hsig := h.signature
    simp only [RelayIdentity.ed25519Verify, Bool.and_eq_true, decide_eq_true_eq] at hsig
    exact ⟨f.first.body, verify_ok_iff.2 ⟨f.first, hs, h.context, hsig.1.2, hsig.2, rfl⟩, hm, h.version, h.identity⟩

theorem verifyingKey_eq_some {b root : Bytes} :
    verifyingKey cx b = some root ↔ b.length = 32 ∧ cx.validKey b = true ∧ b = root := by
  unfold verifyingKey
  split
  · next h => simp [h]
  · next h => simp only [reduceCtorEq, false_iff]; exact fun hb => h ⟨hb.1, hb.2.1⟩

/-- The bytes hold a credential signed by the root it names, at a time it is valid. -/
structure ReadableCredential (cx : Crypto) (items : CborItems) (signed : Bytes) (now : UInt64) (f : SignedFields) (rest : Bytes)
    (g : CredentialFields) (rest' : Bytes) : Prop where
  wrapper : items.signed signed = some (f, rest)
  body : items.credential f.first.body = some (g, rest')
  version : g.first.version = credentialVersion
  context : f.first.context = credentialContext
  keyLength : g.first.identityRootPublicKey.length = 32
  signature : RelayIdentity.ed25519Verify cx g.first.identityRootPublicKey
    (signingInput f.first.context f.first.body) f.first.signature = true
  valid : ¬ (now < g.first.validity.notBefore ∨ now > g.first.validity.notAfter)

def verifiedOf (cx : Crypto) (signed : Bytes) (c : DeviceCredential) : VerifiedCredential :=
  ⟨c, c.identityRootPublicKey, credentialHash cx signed⟩

/-- The same with the identity id, as the relay returns it. -/
def relayVerified (cx : Crypto) (v : VerifiedCredential) : RelayIdentity.VerifiedCredential :=
  ⟨v.credential, v.root, identityId cx v.root, v.hash⟩

theorem relay_verifyCredential_iff {signed : Bytes} {now : UInt64} {w : RelayIdentity.VerifiedCredential} :
    RelayIdentity.verifyCredential cx items signed now = .ok w ↔
      ∃ f g, ReadableCredential cx items signed now f [] g [] ∧ relayVerified cx (verifiedOf cx signed g.first) = w := by
  unfold RelayIdentity.verifyCredential
  constructor
  · intro h
    cases hu : unmarshal items.signed SignedFields.first signed with
    | none => simp [hu] at h
    | some so =>
      obtain ⟨f, hf, rfl⟩ := unmarshal_eq_some.1 hu
      simp only [hu] at h
      cases hc : unmarshal items.credential CredentialFields.first f.first.body with
      | none => simp [hc] at h
      | some c =>
        obtain ⟨g, hg, rfl⟩ := unmarshal_eq_some.1 hc
        simp only [hc, ite_error_eq_ok, not_not, ne_eq] at h
        obtain ⟨hver, h⟩ := h
        cases ho : RelayIdentity.openSigned cx items signed credentialContext g.first.identityRootPublicKey with
        | error e => simp [ho] at h
        | ok body =>
          obtain ⟨hl, f', hf', hctx, hsig, -⟩ := openSigned_ok_iff.1 ho
          obtain rfl : f = f' := (Prod.mk.inj (Option.some.inj (hf.symm.trans hf'))).1
          simp only [ho, ite_error_eq_ok, Except.ok.injEq] at h
          exact ⟨f, g, ⟨hf, hg, hver, hctx, hl, hsig, h.1⟩, h.2⟩
  · rintro ⟨f, g, h, rfl⟩
    have hopen := openSigned_ok_iff.2 ⟨h.keyLength, f, h.wrapper, h.context, h.signature, rfl⟩
    simp only [unmarshal_eq_some.2 ⟨f, h.wrapper, rfl⟩, unmarshal_eq_some.2 ⟨g, h.body, rfl⟩, hopen, ite_error_eq_ok, not_not,
      ne_eq]
    exact ⟨h.version, h.valid, rfl⟩

theorem core_verifyCredential_iff (hread : items.ReadBy cx) {signed : Bytes} {now : UInt64} {v : VerifiedCredential} :
    verifyCredential cx signed none now = .ok v ↔
      ∃ f rest g rest', ReadableCredential cx items signed now f rest g rest' ∧ (f.Once ∧ g.Once) ∧
        verifiedOf cx signed g.first = v := by
  unfold verifyCredential
  constructor
  · intro h
    cases hs : cx.decodeSigned signed with
    | error e => simp [hs] at h
    | ok so =>
      obtain ⟨f, rest, hf, honce, rfl⟩ := fromReader_eq_some.1 ((hread.signed signed).symm.trans (toOption_eq_some.2 hs))
      simp only [hs] at h
      cases hc : cx.decodeCredential f.first.body with
      | error e => simp [hc] at h
      | ok c =>
        obtain ⟨g, rest', hg, honce', rfl⟩ := fromReader_eq_some.1 ((hread.credential _).symm.trans (toOption_eq_some.2 hc))
        simp only [hc, ite_error_eq_ok, not_not, ne_eq] at h
        obtain ⟨hver, hl, h⟩ := h
        cases hk : verifyingKey cx g.first.identityRootPublicKey with
        | none => simp [hk] at h
        | some root =>
          obtain ⟨-, hvalid, rfl⟩ := verifyingKey_eq_some.1 hk
          simp only [hk, Option.any_none, Bool.false_eq_true, if_false] at h
          cases hv : verify cx signed credentialContext g.first.identityRootPublicKey with
          | error e => simp [hv] at h
          | ok body =>
            obtain ⟨so', hs', hctx, hsl, hsig, -⟩ := verify_ok_iff.1 hv
            obtain rfl := Except.ok.inj (hs.symm.trans hs')
            simp only [hv, ite_error_eq_ok, Except.ok.injEq] at h
            refine ⟨f, rest, g, rest', ⟨hf, hg, hver, hctx, hl, ?_, h.1⟩, ⟨honce, honce'⟩, h.2⟩
            simp [RelayIdentity.ed25519Verify, hvalid, hsl, hsig]
  · rintro ⟨f, rest, g, rest', h, ⟨honce, honce'⟩, rfl⟩
    have hs : cx.decodeSigned signed = .ok f.first :=
      toOption_eq_some.1 ((hread.signed signed).trans (fromReader_eq_some.2 ⟨f, rest, h.wrapper, honce, rfl⟩))
    have hc : cx.decodeCredential f.first.body = .ok g.first :=
      toOption_eq_some.1 ((hread.credential _).trans (fromReader_eq_some.2 ⟨g, rest', h.body, honce', rfl⟩))
    have hsig := h.signature
    simp only [RelayIdentity.ed25519Verify, Bool.and_eq_true, decide_eq_true_eq] at hsig
    have hk : verifyingKey cx g.first.identityRootPublicKey = some g.first.identityRootPublicKey :=
      verifyingKey_eq_some.2 ⟨h.keyLength, hsig.1.1, rfl⟩
    have hv : verify cx signed credentialContext g.first.identityRootPublicKey = .ok f.first.body :=
      verify_ok_iff.2 ⟨f.first, hs, h.context, hsig.1.2, hsig.2, rfl⟩
    simp only [hs, hc, hk, hv, ite_error_eq_ok, not_not, ne_eq, Option.any_none, Bool.false_eq_true, not_false_eq_true,
      true_and]
    exact ⟨h.version, h.keyLength, h.valid, rfl⟩

/-- Two readers of one object: the one takes it when nothing follows, the other when every
field is there once. They agree exactly when the two come together. -/
theorem agree_iff {φ γ α : Type} {Readable : φ → Bytes → γ → Bytes → Prop} {Once : φ → Prop} {Once' : γ → Prop} {value : γ → α}
    {Relay Core : α → Prop}
    (hunique : ∀ {f rest g rest' f₂ rest₂ g₂ rest₂'}, Readable f rest g rest' → Readable f₂ rest₂ g₂ rest₂' →
      f = f₂ ∧ rest = rest₂ ∧ g = g₂ ∧ rest' = rest₂')
    (hrelay : ∀ a, Relay a ↔ ∃ f g, Readable f [] g [] ∧ value g = a)
    (hcore : ∀ a, Core a ↔ ∃ f rest g rest', Readable f rest g rest' ∧ (Once f ∧ Once' g) ∧ value g = a) :
    (∀ a, Relay a ↔ Core a) ↔
      ∀ f rest g rest', Readable f rest g rest' → ((Once f ∧ Once' g) ↔ rest = [] ∧ rest' = []) := by
  constructor
  · intro h f rest g rest' hr
    constructor
    · intro honce
      obtain ⟨f₂, g₂, hr₂, -⟩ := (hrelay _).1 ((h _).2 ((hcore _).2 ⟨f, rest, g, rest', hr, honce, rfl⟩))
      obtain ⟨-, hrest, -, hrest'⟩ := hunique hr hr₂
      exact ⟨hrest, hrest'⟩
    · rintro ⟨rfl, rfl⟩
      obtain ⟨f₂, rest₂, g₂, rest₂', hr₂, honce, -⟩ := (hcore _).1 ((h _).1 ((hrelay _).2 ⟨f, g, hr, rfl⟩))
      obtain ⟨rfl, -, rfl, -⟩ := hunique hr hr₂
      exact honce
  · intro h a
    rw [hrelay, hcore]
    constructor
    · rintro ⟨f, g, hr, rfl⟩
      exact ⟨f, [], g, [], hr, (h f [] g [] hr).2 ⟨rfl, rfl⟩, rfl⟩
    · rintro ⟨f, rest, g, rest', hr, honce, rfl⟩
      obtain ⟨rfl, rfl⟩ := (h f rest g rest' hr).1 honce
      exact ⟨f, g, hr, rfl⟩

theorem ReadableManifest.unique {signed root rest rest' rest₂ rest₂' : Bytes} {f f₂ : SignedFields} {g g₂ : ManifestFields}
    (h : ReadableManifest cx items signed root f rest g rest') (h₂ : ReadableManifest cx items signed root f₂ rest₂ g₂ rest₂') :
    f = f₂ ∧ rest = rest₂ ∧ g = g₂ ∧ rest' = rest₂' := by
  obtain ⟨rfl, rfl⟩ := Prod.mk.inj (Option.some.inj (h.wrapper.symm.trans h₂.wrapper))
  obtain ⟨rfl, rfl⟩ := Prod.mk.inj (Option.some.inj (h.body.symm.trans h₂.body))
  exact ⟨rfl, rfl, rfl, rfl⟩

theorem ReadableCredential.unique {signed rest rest' rest₂ rest₂' : Bytes} {now : UInt64} {f f₂ : SignedFields}
    {g g₂ : CredentialFields} (h : ReadableCredential cx items signed now f rest g rest')
    (h₂ : ReadableCredential cx items signed now f₂ rest₂ g₂ rest₂') : f = f₂ ∧ rest = rest₂ ∧ g = g₂ ∧ rest' = rest₂' := by
  obtain ⟨rfl, rfl⟩ := Prod.mk.inj (Option.some.inj (h.wrapper.symm.trans h₂.wrapper))
  obtain ⟨rfl, rfl⟩ := Prod.mk.inj (Option.some.inj (h.body.symm.trans h₂.body))
  exact ⟨rfl, rfl, rfl, rfl⟩

/-- The relay takes a manifest exactly when the core does, with the same fields and hash. -/
def AgreeOnManifest (cx : Crypto) (items : CborItems) (signed root : Bytes) : Prop :=
  ∀ m, RelayIdentity.verifyManifest cx items signed root = .ok m ↔
    acceptManifest cx signed root none = .ok (m, ⟨m.manifestSequence, manifestHash cx signed⟩)

/-- The relay takes a credential exactly when the core does, with the same fields, root,
identity id and hash. -/
def AgreeOnCredential (cx : Crypto) (items : CborItems) (signed : Bytes) (now : UInt64) : Prop :=
  ∀ w, RelayIdentity.verifyCredential cx items signed now = .ok w ↔
    ∃ v, verifyCredential cx signed none now = .ok v ∧ relayVerified cx v = w

/-- Relay and core agree on signed bytes exactly when, should they hold an object that
verifies, its fields stand there once just when nothing follows the object or its body. -/
theorem verifiers_agree_iff (hread : items.ReadBy cx) :
    (∀ signed root, verifyingKey cx root = some root → (AgreeOnManifest cx items signed root ↔
      ∀ f rest g rest', ReadableManifest cx items signed root f rest g rest' →
        ((f.Once ∧ g.Once) ↔ rest = [] ∧ rest' = []))) ∧
    ∀ signed now, AgreeOnCredential cx items signed now ↔
      ∀ f rest g rest', ReadableCredential cx items signed now f rest g rest' →
        ((f.Once ∧ g.Once) ↔ rest = [] ∧ rest' = []) := by
  constructor
  · intro signed root hroot
    obtain ⟨hlength, hvalid, -⟩ := verifyingKey_eq_some.1 hroot
    refine agree_iff ReadableManifest.unique (fun m => relay_verifyManifest_iff hlength) fun m => ?_
    rw [acceptManifest_none_iff, core_verifyManifest_iff hread hvalid, and_iff_left rfl]
  · intro signed now
    refine agree_iff ReadableCredential.unique (fun w => relay_verifyCredential_iff) fun w => ?_
    simp only [core_verifyCredential_iff hread]
    constructor
    · rintro ⟨v, ⟨f, rest, g, rest', hr, honce, rfl⟩, rfl⟩
      exact ⟨f, rest, g, rest', hr, honce, rfl⟩
    · rintro ⟨f, rest, g, rest', hr, honce, rfl⟩
      exact ⟨_, ⟨f, rest, g, rest', hr, honce, rfl⟩, rfl⟩

section Demo

open Demo

def demoBody : DeviceManifest := ⟨1, identityId cborCrypto (publicKey [2]), 1, [], [[2, 3]], []⟩

def demoGenuine : Bytes := issueManifest cborCrypto [2] none [[2, 3]] []

/-- Signed by the root, without the revoked hashes. -/
def demoSparse : Bytes := sign cborCrypto manifestContext (Cbor.map (manifestEntries demoBody)) [2]

theorem demo_key : verifyingKey cborCrypto (publicKey [2]) = some (publicKey [2]) := by
  decide +kernel

theorem demoGenuine_core : verifyManifest cborCrypto demoGenuine (publicKey [2]) = .ok demoBody :=
  ok_of_toOption (by decide +kernel)

theorem demoGenuine_relay : RelayIdentity.verifyManifest cborCrypto cborItems demoGenuine (publicKey [2]) = .ok demoBody :=
  ok_of_toOption (by decide +kernel)

theorem verifiers_agree_on_genuine : cborItems.ReadBy cborCrypto ∧
    AgreeOnManifest cborCrypto cborItems demoGenuine (publicKey [2]) := by
  refine ⟨cborItems_readBy, ((verifiers_agree_iff cborItems_readBy).1 demoGenuine _ demo_key).2 ?_⟩
  intro f rest g rest' hr
  obtain ⟨hlength, hvalid, -⟩ := verifyingKey_eq_some.1 demo_key
  obtain ⟨f₁, g₁, hrelay, -⟩ := (relay_verifyManifest_iff hlength).1 demoGenuine_relay
  obtain ⟨f₂, rest₂, g₂, rest₂', hcore, honce, -⟩ := (core_verifyManifest_iff cborItems_readBy hvalid).1 demoGenuine_core
  obtain ⟨-, rfl, -, rfl⟩ := hr.unique hrelay
  obtain ⟨rfl, -, rfl, -⟩ := hr.unique hcore
  exact iff_of_true honce ⟨rfl, rfl⟩

/-- The core takes a genuine manifest with a byte behind it, the relay does not; the relay
takes one without the revoked hashes, the core does not. -/
theorem verifiers_disagree : cborItems.ReadBy cborCrypto ∧ verifyingKey cborCrypto (publicKey [2]) = some (publicKey [2]) ∧
    ¬ AgreeOnManifest cborCrypto cborItems (demoGenuine ++ [0]) (publicKey [2]) ∧
    ¬ AgreeOnManifest cborCrypto cborItems demoSparse (publicKey [2]) := by
  refine ⟨cborItems_readBy, demo_key, ?_, ?_⟩
  · intro hagree
    have hcore : verifyManifest cborCrypto (demoGenuine ++ [0]) (publicKey [2]) = .ok demoBody := ok_of_toOption (by decide +kernel)
    have hrelay : RelayIdentity.verifyManifest cborCrypto cborItems (demoGenuine ++ [0]) (publicKey [2]) = .error .decode := by
      decide +kernel
    rw [(hagree demoBody).2 (acceptManifest_none_iff.2 ⟨hcore, rfl⟩)] at hrelay
    cases hrelay
  · intro hagree
    have hrelay : RelayIdentity.verifyManifest cborCrypto cborItems demoSparse (publicKey [2]) = .ok demoBody :=
      ok_of_toOption (by decide +kernel)
    have hcore : (verifyManifest cborCrypto demoSparse (publicKey [2])).toOption = none := by
      decide +kernel
    rw [(acceptManifest_none_iff.1 ((hagree demoBody).1 hrelay)).1] at hcore
    cases hcore

end Demo

/-- One item is read, and what follows it is ignored. -/
def ReadsOneItem (cx : Crypto) : Prop :=
  ∀ signed so tail, cx.decodeSigned signed = .ok so → cx.decodeSigned (signed ++ tail) = .ok so

def signatureOf (cx : Crypto) (signed : Bytes) : Option Bytes := (cx.decodeSigned signed).toOption.map (·.signature)

theorem signatureOf_append (hread : ReadsOneItem cx) {signed : Bytes} {so : SignedObject} (hs : cx.decodeSigned signed = .ok so)
    (tail : Bytes) : signatureOf cx (signed ++ tail) = signatureOf cx signed := by
  rw [signatureOf, signatureOf, hread signed so tail hs, hs]

theorem verify_append (hread : ReadsOneItem cx) {signed key body : Bytes} {context : String}
    (h : verify cx signed context key = .ok body) (tail : Bytes) : verify cx (signed ++ tail) context key = .ok body := by
  obtain ⟨so, hs, hrest⟩ := verify_ok_iff.1 h
  exact verify_ok_iff.2 ⟨so, hread signed so tail hs, hrest⟩

theorem verifyManifest_append (hread : ReadsOneItem cx) {signed root : Bytes} {body : DeviceManifest}
    (h : verifyManifest cx signed root = .ok body) (tail : Bytes) : verifyManifest cx (signed ++ tail) root = .ok body := by
  obtain ⟨bytes, hv, hrest⟩ := verifyManifest_ok_iff.1 h
  exact verifyManifest_ok_iff.2 ⟨bytes, verify_append hread hv tail, hrest⟩

theorem verifyCredential_append (hread : ReadsOneItem cx) {signed : Bytes} {expected : Option Bytes} {now : UInt64}
    {v : VerifiedCredential} (h : verifyCredential cx signed expected now = .ok v) (tail : Bytes) :
    verifyCredential cx (signed ++ tail) expected now =
      .ok ⟨v.credential, v.root, credentialHash cx (signed ++ tail)⟩ := by
  unfold verifyCredential at h ⊢
  cases hs : cx.decodeSigned signed with
  | error e => simp [hs] at h
  | ok so =>
    simp only [hs, hread signed so tail hs] at h ⊢
    cases hc : cx.decodeCredential so.body with
    | error e => simp [hc] at h
    | ok c =>
      simp only [hc, ite_error_eq_ok, not_not, ne_eq] at h ⊢
      obtain ⟨hver, hl, h⟩ := h
      refine ⟨hver, hl, ?_⟩
      cases hk : verifyingKey cx c.identityRootPublicKey with
      | none => simp [hk] at h
      | some root =>
        simp only [hk, ite_error_eq_ok] at h ⊢
        obtain ⟨hexp, h⟩ := h
        refine ⟨hexp, ?_⟩
        cases hv : verify cx signed credentialContext root with
        | error e => simp [hv] at h
        | ok body =>
          simp only [hv, ite_error_eq_ok, Except.ok.injEq] at h
          obtain ⟨hvalid, rfl⟩ := h
          simp only [verify_append hread hv tail, ite_error_eq_ok]
          exact ⟨hvalid, trivial⟩

theorem append_tail_ne (signed : Bytes) : signed ++ [0] ≠ signed := by
  intro h
  have := congrArg List.length h
  simp at this

/-- No accepted object is the only encoding of its body and signature: anybody may add to
its end. A client that recorded the genuine manifest takes the longer one for a conflict,
and one that recorded the longer one takes the next genuine manifest for a broken chain. -/
theorem every_signed_object_has_another_encoding (hread : ReadsOneItem cx) :
    (∀ signed root body state, acceptManifest cx signed root none = .ok (body, state) →
      ¬ ∀ signed' state', acceptManifest cx signed' root none = .ok (body, state') →
        signatureOf cx signed' = signatureOf cx signed → signed' = signed) ∧
    (∀ signed expected now v, verifyCredential cx signed expected now = .ok v →
      ¬ ∀ signed' v', verifyCredential cx signed' expected now = .ok v' → v'.credential = v.credential →
        signatureOf cx signed' = signatureOf cx signed → signed' = signed) ∧
    ∀ signed root body state tail, acceptManifest cx signed root none = .ok (body, state) →
      manifestHash cx (signed ++ tail) ≠ manifestHash cx signed →
      acceptManifest cx (signed ++ tail) root (some state) = .error (.manifestConflict body.manifestSequence) ∧
      ∀ next body', verifyManifest cx next root = .ok body' → body.manifestSequence < body'.manifestSequence →
        body'.manifestSequence = body.manifestSequence + 1 → body'.previousManifestHash = manifestHash cx signed →
        acceptManifest cx next root (some ⟨body.manifestSequence, manifestHash cx (signed ++ tail)⟩) = .error .chainBroken := by
  refine ⟨?_, ?_, ?_⟩
  · intro signed root body state h honly
    obtain ⟨hv, -⟩ := acceptManifest_none_iff.1 h
    obtain ⟨bytes, hverify, -⟩ := verifyManifest_ok_iff.1 hv
    obtain ⟨so, hs, -⟩ := verify_ok_iff.1 hverify
    exact append_tail_ne signed (honly (signed ++ [0]) _ (acceptManifest_none_iff.2 ⟨verifyManifest_append hread hv [0], rfl⟩)
      (signatureOf_append hread hs [0]))
  · intro signed expected now v h honly
    obtain ⟨so, hs, -⟩ := verifyCredential_ok h
    exact append_tail_ne signed (honly (signed ++ [0]) _ (verifyCredential_append hread h [0]) rfl
      (signatureOf_append hread hs [0]))
  · intro signed root body state tail h hhash
    obtain ⟨hv, rfl⟩ := acceptManifest_none_iff.1 h
    refine ⟨?_, fun next body' hnext hlt hseq hprev => ?_⟩
    · simp only [acceptManifest, verifyManifest_append hread hv tail, checkChain, if_true, if_neg hhash]
    · have hne : body'.manifestSequence ≠ body.manifestSequence := fun he => absurd (he ▸ hlt) (UInt64.lt_irrefl _)
      have hge : ¬ body'.manifestSequence < body.manifestSequence := UInt64.not_lt.2 (UInt64.le_of_lt hlt)
      have hbroken : body'.manifestSequence = body.manifestSequence + 1 ∧
          body'.previousManifestHash ≠ manifestHash cx (signed ++ tail) := ⟨hseq, fun he => hhash (he.symm.trans hprev)⟩
      simp only [acceptManifest, hnext, checkChain, if_neg hne, if_neg hge, if_pos hbroken]

section Demo

open Demo

theorem cborCrypto_readsOneItem : ReadsOneItem cborCrypto := by
  intro signed so tail h
  have hread := cborItems_readBy.signed signed
  rw [h] at hread
  obtain ⟨f, rest, hf, honce, rfl⟩ := fromReader_eq_some.1 hread.symm
  refine toOption_eq_some.1 ((cborItems_readBy.signed _).trans (fromReader_eq_some.2 ⟨f, rest ++ tail, ?_, honce, rfl⟩))
  exact stable_itemAs asSigned signed f rest tail hf

theorem genuine_manifest_has_another_encoding : ReadsOneItem cborCrypto ∧
    ¬ ∀ signed' state', acceptManifest cborCrypto signed' (publicKey [2]) none = .ok (demoBody, state') →
      signatureOf cborCrypto signed' = signatureOf cborCrypto demoGenuine → signed' = demoGenuine :=
  ⟨cborCrypto_readsOneItem, (every_signed_object_has_another_encoding cborCrypto_readsOneItem).1 demoGenuine (publicKey [2])
    demoBody _ (acceptManifest_none_iff.2 ⟨demoGenuine_core, rfl⟩)⟩

/-- The genuine manifest and the same with a byte behind it: one body, one signature, two
hashes. -/
theorem genuine_manifest_is_malleable : ¬ ∀ signed₁ signed₂ root body state₁ state₂,
    acceptManifest cborCrypto signed₁ root none = .ok (body, state₁) →
    acceptManifest cborCrypto signed₂ root none = .ok (body, state₂) →
    signatureOf cborCrypto signed₁ = signatureOf cborCrypto signed₂ → signed₁ = signed₂ ∧ state₁.hash = state₂.hash := by
  intro h
  have hlonger : acceptManifest cborCrypto (demoGenuine ++ [0]) (publicKey [2]) none = .ok (demoBody, _) :=
    acceptManifest_none_iff.2 ⟨verifyManifest_append cborCrypto_readsOneItem demoGenuine_core [0], rfl⟩
  have hgenuine : acceptManifest cborCrypto demoGenuine (publicKey [2]) none = .ok (demoBody, _) :=
    acceptManifest_none_iff.2 ⟨demoGenuine_core, rfl⟩
  exact append_tail_ne demoGenuine (h _ _ _ _ _ _ hlonger hgenuine (by decide +kernel)).1

end Demo

end Arveil.Identity
