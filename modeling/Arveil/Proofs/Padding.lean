import Arveil.Proofs.Codec

/-! Padded frames. Both sides look for the pad from the same estimate; the core may write an
empty pad and the relay cannot, and the estimate knows headers of up to three bytes only. -/

namespace Arveil.RelayCodec

open Cbor (Item struct)
open RelayQueue (maxFrameBytes)

def padCost (n : Nat) : Nat := 4 + Cbor.headLength n + n

theorem padCost_lt {m n : Nat} (h : m < n) : padCost m < padCost n := by
  have hhead := Cbor.headLength_mono (le_of_lt h)
  unfold padCost
  omega

theorem padCost_le {m n : Nat} (h : m ≤ n) : padCost m ≤ padCost n := by
  have hhead := Cbor.headLength_mono h
  unfold padCost
  omega

/-- From the estimate on, it takes at most two more bytes. -/
theorem padCost_found (gap : Nat) : ∃ m, m ≤ 2 ∧ gap ≤ padCost (gap - 7 + m) ∧ ∀ k < m, padCost (gap - 7 + k) < gap := by
  by_cases h0 : gap ≤ padCost (gap - 7)
  · exact ⟨0, by omega, h0, fun k hk => by omega⟩
  by_cases h1 : gap ≤ padCost (gap - 7 + 1)
  · refine ⟨1, by omega, h1, fun k hk => ?_⟩
    obtain rfl : k = 0 := by omega
    exact not_le.1 h0
  · refine ⟨2, le_refl 2, ?_, fun k hk => ?_⟩
    · have hhead : 1 ≤ Cbor.headLength (gap - 7 + 2) := by
        unfold Cbor.headLength
        split_ifs <;> omega
      unfold padCost
      omega
    · rcases (by omega : k = 0 ∨ k = 1) with rfl | rfl
      · exact not_le.1 h0
      · exact not_le.1 h1

/-- Below 65536 a header has at most three bytes, so the estimate is not too large. -/
theorem padCost_estimate {gap n : Nat} (hgap : gap ≤ 65543) (hn : n < gap - 7) : padCost n < gap := by
  have hhead : Cbor.headLength n ≤ 3 := by
    unfold Cbor.headLength
    split_ifs <;> omega
  unfold padCost
  omega

/-- The pad found costs at most one byte too many, except where the header jumps by two. -/
theorem padCost_over {gap m : Nat} (hgap : gap ≤ 65542) (hfound : gap ≤ padCost (gap - 7 + m)) (hbefore : ∀ k < m, padCost (gap - 7 + k) < gap)
    (hlow : 6 ≤ gap) : padCost (gap - 7 + m) ≤ gap + 1 := by
  cases m with
  | zero =>
    have hhead : Cbor.headLength (gap - 7 + 0) ≤ 3 := by
      unfold Cbor.headLength
      split_ifs <;> omega
    unfold padCost at hfound ⊢
    omega
  | succ m =>
    have hprev := hbefore m (Nat.lt_succ_self m)
    have hstep : Cbor.headLength (gap - 7 + (m + 1)) ≤ Cbor.headLength (gap - 7 + m) + 1 := by
      have hnow := Cbor.headLength_spec (gap - 7 + m)
      have hnext := Cbor.headLength_spec (gap - 7 + (m + 1))
      unfold padCost at hprev
      omega
    unfold padCost at hprev hfound ⊢
    omega

def firstFit (cand : Nat → Bytes) (size : Nat) : Nat → Nat → Option Bytes
  | 0, _ => none
  | rounds + 1, n => if size ≤ (cand n).length then some (cand n) else firstFit cand size rounds (n + 1)

theorem firstFit_eq {cand : Nat → Bytes} {size rounds n m : Nat} (hrounds : m < rounds) (hfound : size ≤ (cand (n + m)).length)
    (hbefore : ∀ k < m, (cand (n + k)).length < size) : firstFit cand size rounds n = some (cand (n + m)) := by
  induction m generalizing rounds n with
  | zero =>
    obtain ⟨rounds, rfl⟩ : ∃ k, rounds = k + 1 := ⟨rounds - 1, by omega⟩
    exact if_pos hfound
  | succ m ih =>
    obtain ⟨rounds, rfl⟩ : ∃ k, rounds = k + 1 := ⟨rounds - 1, by omega⟩
    have hshort : (cand n).length < size := hbefore 0 (Nat.succ_pos m)
    have hshift : n + 1 + m = n + (m + 1) := by omega
    rw [firstFit, if_neg (not_le.2 hshort), ih (by omega) (by rw [hshift]; exact hfound) fun k hk => ?_, hshift]
    have hk' := hbefore (k + 1) (by omega)
    rwa [show n + (k + 1) = n + 1 + k by omega] at hk'

def corePad (id : UInt64) (i : Item) (n : Nat) : Bytes := written id i (some (List.replicate n 0))

def relayPad (id : UInt64) (i : Item) (n : Nat) : Bytes := written id i (if n = 0 then none else some (List.replicate n 0))

theorem corePad_length (id : UInt64) (i : Item) (n : Nat) : (corePad id i n).length = (written id i none).length + padCost n := by
  rw [corePad, written_length, List.length_replicate, padCost]

theorem relayPad_pos {id : UInt64} {i : Item} {n : Nat} (hn : n ≠ 0) : relayPad id i n = corePad id i n := by
  rw [relayPad, if_neg hn, corePad]

theorem core_padLoop {f : Codec.Frame} {size : Nat} (hsize : size ≤ maxFrameBytes) (rounds n : Nat) :
    Codec.padLoop f size rounds n = (firstFit (corePad f.id f.payload.item) size rounds n).map fun b =>
      if maxFrameBytes < b.length then .error (.tooLarge b.length) else .ok b := by
  induction rounds generalizing n with
  | zero => rfl
  | succ rounds ih =>
    have hpadded : Codec.canonical (Codec.paddedFrame f n) = corePad f.id f.payload.item n :=
      canonical_framed f.id f.payload (some (List.replicate n 0))
    rw [Codec.padLoop, hpadded, firstFit]
    by_cases hfit : size ≤ (corePad f.id f.payload.item n).length
    · rw [if_pos hfit, if_pos hfit]
      by_cases hlarge : maxFrameBytes < (corePad f.id f.payload.item n).length
      · rw [if_pos hlarge, Option.map_some, if_pos hlarge]
      · rw [if_neg hlarge, Option.map_some, if_neg hlarge]
    · rw [if_neg hfit, if_neg hfit, if_neg (by omega)]
      exact ih (n + 1)

theorem encodeWire_pad (w : WireFrame) {i : Item} (hw : w.payload = some (i.sorted Cbor.bytewise)) (n : Nat) :
    encodeWire { w with pad := some (List.replicate n 0) } =
      if maxFrameBytes < (relayPad w.id i n).length then .error .frameTooLarge else .ok (relayPad w.id i n) := by
  rw [hw]
  by_cases hn : n = 0
  · subst hn
    have hplain : encodeWire ⟨w.id, some (i.sorted Cbor.bytewise), some (List.replicate 0 0)⟩ =
        encodeWire ⟨w.id, some (i.sorted Cbor.bytewise), none⟩ := rfl
    have hnone : ∀ b ∈ (none : Option Bytes), b ≠ [] := fun b hb => by cases hb
    rw [hplain, encodeWire_framed w.id i hnone]
    rfl
  · have hzeros : ∀ b ∈ some (List.replicate n (0 : UInt8)), b ≠ [] := by
      intro b hb
      obtain rfl := Option.mem_some.1 hb
      exact fun h => hn ((List.replicate_eq_nil_iff _).1 h)
    rw [encodeWire_framed w.id i hzeros, relayPad_pos hn, corePad]

theorem relay_padLoop {w : WireFrame} {i : Item} (hw : w.payload = some (i.sorted Cbor.bytewise)) {size : Nat} (hsize : size ≤ maxFrameBytes)
    (rounds n : Nat) : padLoop w size rounds n = (firstFit (relayPad w.id i) size rounds n).map fun b =>
      if maxFrameBytes < b.length then .error .frameTooLarge else .ok b := by
  induction rounds generalizing n with
  | zero => rfl
  | succ rounds ih =>
    rw [padLoop, firstFit, encodeWire_pad w hw]
    by_cases hfit : size ≤ (relayPad w.id i n).length
    · rw [if_pos hfit, Option.map_some]
      by_cases hlarge : maxFrameBytes < (relayPad w.id i n).length
      · rw [if_pos hlarge]
      · rw [if_neg hlarge]
        exact if_pos hfit
    · rw [if_neg hfit, if_neg (by omega)]
      exact (if_neg hfit).trans (ih (n + 1))

variable {f : Codec.Frame} {size : Nat}

def unpadded (f : Codec.Frame) : Bytes := Codec.canonical f.item

theorem unpadded_eq (f : Codec.Frame) : unpadded f = written f.id f.payload.item none := canonical_framed f.id f.payload none

theorem unpadded_length (f : Codec.Frame) : 2 ≤ (unpadded f).length := by
  have hid : (Item.text "id").write.length = 3 := by decide
  rw [unpadded_eq, written, Cbor.sorted_struct_length, framed]
  simp only [Option.map_none, Option.toList, List.append_nil, List.map_cons, List.sum_cons, hid]
  omega

theorem core_encodePadded (hlength : (unpadded f).length ≤ maxFrameBytes) (hshort : (unpadded f).length < size) (hsize : size ≤ maxFrameBytes)
    {m : Nat} (hm : m ≤ 2) (hfound : size - (unpadded f).length ≤ padCost (size - (unpadded f).length - 7 + m))
    (hbefore : ∀ k < m, padCost (size - (unpadded f).length - 7 + k) < size - (unpadded f).length) :
    Codec.encodePadded f size =
      some (if maxFrameBytes < (corePad f.id f.payload.item (size - (unpadded f).length - 7 + m)).length then
          .error (.tooLarge (corePad f.id f.payload.item (size - (unpadded f).length - 7 + m)).length)
        else .ok (corePad f.id f.payload.item (size - (unpadded f).length - 7 + m))) := by
  have htwo := unpadded_length f
  rw [unpadded_eq] at *
  have hfit : firstFit (corePad f.id f.payload.item) size (size + 1) (size - (written f.id f.payload.item none).length - 7) =
      some (corePad f.id f.payload.item (size - (written f.id f.payload.item none).length - 7 + m)) := by
    refine firstFit_eq (by omega) ?_ fun k hk => ?_
    · rw [corePad_length]
      omega
    · have hk' := hbefore k hk
      rw [corePad_length]
      omega
  rw [Codec.encodePadded, encode_core, if_neg (not_lt.2 hlength)]
  dsimp only
  rw [if_neg (not_le.2 hshort), core_padLoop hsize, Nat.sub_add_eq, hfit, Option.map_some]

theorem relay_encodePadded {relay : GoReader} (hrelay : relay.Lawful) {g : Frame} {i : Item} (hitem : payloadItem g.payload = some i)
    (hplain : i.Plain 31) (hshort : i.Short maxArrayElements 31) (hsize : size ≤ maxFrameBytes) :
    encodePadded relay g size =
      if maxFrameBytes < (written g.id i none).length then some (.error .frameTooLarge)
      else if size ≤ (written g.id i none).length then some (.ok (written g.id i none))
      else (firstFit (relayPad g.id i) size (size + 1) (size - (written g.id i none).length - 7)).map fun b =>
        if maxFrameBytes < b.length then .error .frameTooLarge else .ok b := by
  have hnone : ∀ b ∈ (none : Option Bytes), b ≠ [] := fun b hb => by cases hb
  have hencode : encode g = if maxFrameBytes < (written g.id i none).length then .error .frameTooLarge else .ok (written g.id i none) := by
    rw [encode, hitem]
    exact encodeWire_framed g.id i hnone
  rw [encodePadded, hencode]
  by_cases hlength : maxFrameBytes < (written g.id i none).length
  · rw [if_pos hlength, if_pos hlength]
  · obtain ⟨hread, -⟩ := (decode_written hrelay g.id hplain (not_lt.1 hlength)).1 hshort
    rw [if_neg hlength, if_neg hlength]
    dsimp only
    by_cases hfit : size ≤ (written g.id i none).length
    · rw [if_pos hfit, if_pos hfit]
    · rw [if_neg hfit, if_neg hfit, hread, Option.bind_some, reads_frame hrelay]
      exact relay_padLoop (w := ⟨g.id, some (i.sorted Cbor.bytewise), none⟩) rfl hsize _ _

theorem firstFit_mem {cand : Nat → Bytes} {size rounds n : Nat} {b : Bytes} (h : firstFit cand size rounds n = some b) : ∃ n, b = cand n := by
  induction rounds generalizing n with
  | zero => cases h
  | succ rounds ih =>
    rw [firstFit] at h
    split at h
    · exact ⟨n, (Option.some.inj h).symm⟩
    · exact ih h

theorem relay_padded_form {relay : GoReader} (hrelay : relay.Lawful) {g : Frame} {i : Item} (hitem : payloadItem g.payload = some i)
    (hplain : i.Plain 31) (hshort : i.Short maxArrayElements 31) (hsize : size ≤ maxFrameBytes) {b : Bytes}
    (h : encodePadded relay g size = some (.ok b)) : ∃ pad, b = written g.id i pad ∧ b.length ≤ maxFrameBytes := by
  rw [relay_encodePadded hrelay hitem hplain hshort hsize] at h
  split at h
  · cases h
  rename_i hlength
  split at h
  · cases h
    exact ⟨none, rfl, not_lt.1 hlength⟩
  · obtain ⟨c, hc, hb⟩ := Option.map_eq_some_iff.1 h
    obtain ⟨n, rfl⟩ := firstFit_mem hc
    split at hb
    · cases hb
    · rename_i hle
      cases hb
      exact ⟨_, rfl, not_lt.1 hle⟩

theorem relay_padded {relay : GoReader} (hrelay : relay.Lawful) (hkey : keyless f.payload = false) (hwithin : within f.payload = true)
    (hlength : (unpadded f).length ≤ maxFrameBytes) (hsize : size ≤ maxFrameBytes) :
    encodePadded relay (.of f) size =
      if size ≤ (unpadded f).length then some (.ok (unpadded f))
      else (firstFit (relayPad f.id f.payload.item) size (size + 1) (size - (unpadded f).length - 7)).map fun b =>
        if maxFrameBytes < b.length then .error .frameTooLarge else .ok b := by
  rw [unpadded_eq] at *
  exact (relay_encodePadded hrelay (payloadItem_of hkey) (plain_payload (d := 26) f.payload) ((short_payload (d := 26) _).2 hwithin) hsize).trans
    (if_neg (not_lt.2 hlength))

/-- A gap of six bytes or more needs a pad that is not empty, so the relay stops where the core stops. -/
theorem relay_stops {relay : GoReader} (hrelay : relay.Lawful) (hkey : keyless f.payload = false) (hwithin : within f.payload = true)
    (hlength : (unpadded f).length ≤ maxFrameBytes) (hgap : (unpadded f).length + 6 ≤ size) (hsize : size ≤ maxFrameBytes)
    {m : Nat} (hm : m ≤ 2) (hfound : size - (unpadded f).length ≤ padCost (size - (unpadded f).length - 7 + m))
    (hbefore : ∀ k < m, padCost (size - (unpadded f).length - 7 + k) < size - (unpadded f).length) :
    encodePadded relay (.of f) size =
      some (if maxFrameBytes < (corePad f.id f.payload.item (size - (unpadded f).length - 7 + m)).length then .error .frameTooLarge
        else .ok (corePad f.id f.payload.item (size - (unpadded f).length - 7 + m))) := by
  have hpos : size - (unpadded f).length - 7 + m ≠ 0 := by
    intro hzero
    have hcost : padCost 0 = 5 := by decide
    rw [hzero, hcost] at hfound
    omega
  have hfit : firstFit (relayPad f.id f.payload.item) size (size + 1) (size - (unpadded f).length - 7) =
      some (relayPad f.id f.payload.item (size - (unpadded f).length - 7 + m)) := by
    refine firstFit_eq (by omega) ?_ fun k hk => ?_
    · rw [relayPad_pos hpos, corePad_length, ← unpadded_eq]
      omega
    · have hk' := hbefore k hk
      by_cases hzero : size - (unpadded f).length - 7 + k = 0
      · rw [relayPad, if_pos hzero, ← unpadded_eq]
        omega
      · rw [relayPad_pos hzero, corePad_length, ← unpadded_eq]
        omega
  rw [relay_padded hrelay hkey hwithin hlength hsize, if_neg (by omega), hfit, Option.map_some, relayPad_pos hpos]

theorem relay_one_zero {relay : GoReader} (hrelay : relay.Lawful) (hkey : keyless f.payload = false) (hwithin : within f.payload = true)
    (hlength : (unpadded f).length ≤ maxFrameBytes) (hshort : (unpadded f).length < size) (hgap : size ≤ (unpadded f).length + 6)
    (hsize : size ≤ maxFrameBytes) :
    encodePadded relay (.of f) size =
      some (if maxFrameBytes < (corePad f.id f.payload.item 1).length then .error .frameTooLarge else .ok (corePad f.id f.payload.item 1)) := by
  have hstart : size - (unpadded f).length - 7 = 0 := by omega
  have hone : relayPad f.id f.payload.item 1 = corePad f.id f.payload.item 1 := relayPad_pos Nat.one_ne_zero
  have hcost : padCost 1 = 6 := by decide
  have hfit : firstFit (relayPad f.id f.payload.item) size (size + 1) 0 = some (relayPad f.id f.payload.item (0 + 1)) := by
    refine firstFit_eq (by omega) ?_ fun k hk => ?_
    · rw [hone, corePad_length, ← unpadded_eq, hcost]
      exact hgap
    · obtain rfl : k = 0 := by omega
      show (written f.id f.payload.item none).length < size
      rwa [← unpadded_eq]
  rw [relay_padded hrelay hkey hwithin hlength hsize, if_neg (not_le.2 hshort), hstart, hfit, Option.map_some, Nat.zero_add, hone]

/-- A frame without its request key decodes as a bare name, not as the frame. -/
theorem relay_keyless {relay : GoReader} (hrelay : relay.Lawful) (hkey : keyless f.payload = true) (hsize : size ≤ maxFrameBytes) {b : Bytes}
    (h : encodePadded relay (.of f) size = some (.ok b)) : decode relay b ≠ .ok (.of f) := by
  obtain ⟨id, p⟩ := f
  cases p with
  | mailboxCreate requestKey readCapability writeCapability =>
    have hempty : requestKey.length = 0 := of_decide_eq_true hkey
    have hitem : payloadItem (Payload.of (.mailboxCreate requestKey readCapability writeCapability)) = some (.text "MailboxCreate") := by
      show (if requestKey.length = 0 then _ else _) = _
      rw [if_pos hempty]
      rfl
    have hname : Kind.mailboxCreate ∈ GoReader.unitKinds := by decide
    obtain ⟨pad, rfl, hlength⟩ := relay_padded_form hrelay (g := .of ⟨id, .mailboxCreate requestKey readCapability writeCapability⟩)
      hitem (plain_text _) (short_text _) hsize h
    rw [((decode_written hrelay _ (plain_text _) hlength).1 (short_text _)).2, sorted_text, GoReader.payload, hrelay.text_text]
    dsimp only
    rw [show "MailboxCreate" = Kind.mailboxCreate.name from rfl, unitKinds_find hname]
    intro hsame
    cases hsame
  | _ => cases hkey

/-- The encodings of a frame, padded or not. -/
def IsEncoding (f : Codec.Frame) (c : Bytes) : Prop := c = unpadded f ∨ ∃ n, c = Codec.canonical (Codec.paddedFrame f n)

/-- Both loops end with the same bytes, the shortest that reach the size, and both sides read the frame in them. -/
def Agrees (core : Codec.SerdeReader) (relay : GoReader) (f : Codec.Frame) (size : Nat) : Prop :=
  ∃ b, encodePadded relay (.of f) size = some (.ok b) ∧ Codec.encodePadded f size = some (.ok b) ∧
    size ≤ b.length ∧ (∀ c, IsEncoding f c → size ≤ c.length → b.length ≤ c.length) ∧
    decode relay b = .ok (.of f) ∧ Codec.decode core b = .ok f

theorem core_plain (hlength : (unpadded f).length ≤ maxFrameBytes) (hfit : size ≤ (unpadded f).length) :
    Codec.encodePadded f size = some (.ok (unpadded f)) := by
  rw [unpadded_eq] at *
  rw [Codec.encodePadded, encode_core, if_neg (not_lt.2 hlength)]
  exact if_pos hfit

theorem core_padded_form (hsize : size ≤ maxFrameBytes) {b : Bytes} (h : Codec.encodePadded f size = some (.ok b)) :
    (unpadded f).length ≤ maxFrameBytes ∧ ∃ pad, b = written f.id f.payload.item pad ∧ b.length ≤ maxFrameBytes := by
  by_cases hlength : (unpadded f).length ≤ maxFrameBytes
  · refine ⟨hlength, ?_⟩
    by_cases hfit : size ≤ (unpadded f).length
    · rw [core_plain hlength hfit] at h
      obtain rfl := Except.ok.inj (Option.some.inj h)
      exact ⟨none, unpadded_eq f, hlength⟩
    · obtain ⟨m, hm, hfound, hbefore⟩ := padCost_found (size - (unpadded f).length)
      rw [core_encodePadded hlength (not_le.1 hfit) hsize hm hfound hbefore] at h
      split at h
      · exact nomatch Option.some.inj h
      · next hle =>
        obtain rfl := Except.ok.inj (Option.some.inj h)
        exact ⟨_, rfl, not_lt.1 hle⟩
  · rw [Codec.encodePadded, encode_core, ← unpadded_eq, if_pos (not_le.1 hlength)] at h
    exact nomatch Option.some.inj h

theorem encoding_length {c : Bytes} (hc : IsEncoding f c) : c = unpadded f ∨ ∃ n, c.length = (unpadded f).length + padCost n := by
  refine hc.imp_right ?_
  rintro ⟨n, rfl⟩
  refine ⟨n, ?_⟩
  rw [unpadded_eq, ← corePad_length]
  exact congrArg List.length (canonical_framed f.id f.payload (some (List.replicate n 0)))

theorem padCost_shortest {gap m n : Nat} (hgap : gap ≤ 65543) (hbefore : ∀ k < m, padCost (gap - 7 + k) < gap) (hreach : gap ≤ padCost n) :
    padCost (gap - 7 + m) ≤ padCost n := by
  by_cases hn : gap - 7 + m ≤ n
  · exact padCost_le hn
  by_cases hlow : n < gap - 7
  · have hless := padCost_estimate hgap hlow
    omega
  · have hless := hbefore (n - (gap - 7)) (by omega)
    rw [show gap - 7 + (n - (gap - 7)) = n by omega] at hless
    omega

theorem padCost_large {gap n : Nat} (hn : 65536 ≤ n) (hgap : gap ≤ n + 9) : gap ≤ padCost n := by
  have hhead : 5 ≤ Cbor.headLength n := by
    unfold Cbor.headLength
    split_ifs <;> omega
  unfold padCost
  omega

/-- The gaps that the two loops close alike, and with the shortest pad. -/
def gapFits (plain size : Nat) : Prop :=
  size ≤ plain ∨ plain + 6 ≤ size ∧ size ≤ plain + 65542 ∨ size = plain + 65543 ∧ size + 2 ≤ maxFrameBytes

theorem agrees_of_fits {core : Codec.SerdeReader} (hcore : core.Lawful) {relay : GoReader} (hrelay : relay.Lawful) (hsize : size < maxFrameBytes)
    (hkey : keyless f.payload = false) (hwithin : within f.payload = true) (hlength : (unpadded f).length ≤ maxFrameBytes)
    (hfits : gapFits (unpadded f).length size) : Agrees core relay f size := by
  have hreads : ∀ pad, (written f.id f.payload.item pad).length ≤ maxFrameBytes →
      decode relay (written f.id f.payload.item pad) = .ok (.of f) ∧ Codec.decode core (written f.id f.payload.item pad) = .ok f := by
    intro pad hle
    exact ⟨(decode_relay hrelay f.id f.payload hle).trans (if_pos hwithin), decode_core hcore f.id f.payload hle⟩
  by_cases hplain : size ≤ (unpadded f).length
  · have hread := hreads none (by rwa [← unpadded_eq])
    rw [← unpadded_eq] at hread
    refine ⟨unpadded f, ?_, core_plain hlength hplain, hplain, fun c hc _ => ?_, hread⟩
    · rw [relay_padded hrelay hkey hwithin hlength (le_of_lt hsize), if_pos hplain]
    · rcases encoding_length hc with rfl | ⟨n, hn⟩ <;> omega
  · have hgap : (unpadded f).length + 6 ≤ size := by
      rcases hfits with h | ⟨h, -⟩ | ⟨h, -⟩ <;> omega
    have hgap' : size - (unpadded f).length ≤ 65543 := by
      rcases hfits with h | ⟨-, h⟩ | ⟨h, -⟩ <;> omega
    obtain ⟨m, hm, hfound, hbefore⟩ := padCost_found (size - (unpadded f).length)
    have hbytes := corePad_length f.id f.payload.item (size - (unpadded f).length - 7 + m)
    rw [← unpadded_eq] at hbytes
    have hlarge : (corePad f.id f.payload.item (size - (unpadded f).length - 7 + m)).length ≤ maxFrameBytes := by
      rcases hfits with h | ⟨-, h⟩ | ⟨h, hroom⟩
      · exact absurd h hplain
      · have hover := padCost_over (by omega) hfound hbefore (by omega)
        omega
      · have hstart : size - (unpadded f).length - 7 = 65536 := by omega
        have hreach : size - (unpadded f).length ≤ padCost (65536 + 0) := padCost_large (by omega) (by omega)
        have hzero : m = 0 := by
          by_contra hne
          have hless := hbefore 0 (by omega)
          rw [hstart] at hless
          omega
        have hcost : padCost 65536 = 65545 := by decide
        rw [hstart, hzero, Nat.add_zero, hcost] at hbytes
        rw [hstart, hzero, Nat.add_zero]
        omega
    refine ⟨corePad f.id f.payload.item (size - (unpadded f).length - 7 + m), ?_, ?_, by omega, fun c hc hreach => ?_, hreads _ hlarge⟩
    · rw [relay_stops hrelay hkey hwithin hlength hgap (le_of_lt hsize) hm hfound hbefore, if_neg (not_lt.2 hlarge)]
    · rw [core_encodePadded hlength (not_le.1 hplain) (le_of_lt hsize) hm hfound hbefore, if_neg (not_lt.2 hlarge)]
    · rcases encoding_length hc with rfl | ⟨n, hn⟩
      · exact absurd hreach hplain
      · have hshortest := padCost_shortest (n := n) hgap' hbefore (by omega)
        omega

theorem small_gap_differs {relay : GoReader} (hrelay : relay.Lawful) (hsize : size < maxFrameBytes) (hkey : keyless f.payload = false)
    (hwithin : within f.payload = true) (hlength : (unpadded f).length ≤ maxFrameBytes) (hshort : (unpadded f).length < size)
    (hgap : size < (unpadded f).length + 6) {b : Bytes} (hr : encodePadded relay (.of f) size = some (.ok b)) :
    Codec.encodePadded f size ≠ some (.ok b) := by
  intro hc
  have hzero : padCost 0 = 5 := by decide
  have hone : padCost 1 = 6 := by decide
  have hstart : size - (unpadded f).length - 7 = 0 := by omega
  rw [core_encodePadded hlength hshort (le_of_lt hsize) (m := 0) (by omega) (by rw [hstart, hzero]; omega) (fun k hk => by omega), hstart] at hc
  rw [relay_one_zero hrelay hkey hwithin hlength hshort (le_of_lt hgap) (le_of_lt hsize)] at hr
  have hbytes : ∀ n, (corePad f.id f.payload.item n).length = (written f.id f.payload.item none).length + padCost n :=
    corePad_length f.id f.payload.item
  split at hr
  · cases hr
  split at hc
  · cases hc
  have hsame : (corePad f.id f.payload.item 1).length = (corePad f.id f.payload.item 0).length :=
    congrArg List.length ((Except.ok.inj (Option.some.inj hr)).trans (Except.ok.inj (Option.some.inj hc)).symm)
  rw [hbytes, hbytes, hzero, hone] at hsame
  omega

theorem fits_of_agrees {core : Codec.SerdeReader} {relay : GoReader} (hrelay : relay.Lawful) (hsize : size < maxFrameBytes)
    (h : Agrees core relay f size) : keyless f.payload = false ∧ within f.payload = true ∧ (unpadded f).length ≤ maxFrameBytes ∧
      gapFits (unpadded f).length size := by
  obtain ⟨b, hr, hc, -, hshortest, hread, -⟩ := h
  obtain ⟨hlength, pad, hb, hle⟩ := core_padded_form (le_of_lt hsize) hc
  have hwithin : within f.payload = true := by
    by_contra hlong
    rw [hb] at hread hle
    rw [decode_relay hrelay f.id f.payload hle, if_neg hlong] at hread
    cases hread
  have hkey : keyless f.payload = false := by
    by_contra hkeyless
    exact relay_keyless hrelay (Bool.eq_true_of_not_eq_false hkeyless) (le_of_lt hsize) hr hread
  refine ⟨hkey, hwithin, hlength, ?_⟩
  by_cases hplain : size ≤ (unpadded f).length
  · exact Or.inl hplain
  have hsix : (unpadded f).length + 6 ≤ size := by
    by_contra hsmall
    exact small_gap_differs hrelay hsize hkey hwithin hlength (not_le.1 hplain) (not_le.1 hsmall) hr hc
  by_cases hlow : size ≤ (unpadded f).length + 65542
  · exact Or.inr (Or.inl ⟨hsix, hlow⟩)
  -- the estimate is at least 65536, so the loop stops there
  have hreach : size - (unpadded f).length ≤ padCost (size - (unpadded f).length - 7 + 0) := padCost_large (by omega) (by omega)
  rw [core_encodePadded hlength (not_le.1 hplain) (le_of_lt hsize) (m := 0) (by omega) hreach fun k hk => absurd hk (Nat.not_lt_zero k)] at hc
  split at hc
  · cases hc
  rename_i hroom
  cases hc
  rw [corePad_length, ← unpadded_eq] at hroom hshortest
  have hexact : size = (unpadded f).length + 65543 := by
    by_contra hne
    have hsmaller := hshortest _ (Or.inr ⟨size - (unpadded f).length - 8, rfl⟩)
    have hlen : (Codec.canonical (Codec.paddedFrame f (size - (unpadded f).length - 8))).length =
        (unpadded f).length + padCost (size - (unpadded f).length - 8) := by
      rw [unpadded_eq, ← corePad_length]
      exact congrArg List.length (canonical_framed f.id f.payload (some (List.replicate _ 0)))
    have hreach' : size - (unpadded f).length ≤ padCost (size - (unpadded f).length - 8) := padCost_large (by omega) (by omega)
    have hless : padCost (size - (unpadded f).length - 8) < padCost (size - (unpadded f).length - 7 + 0) := padCost_lt (by omega)
    rw [hlen] at hsmaller
    have := hsmaller (by omega)
    omega
  refine Or.inr (Or.inr ⟨hexact, ?_⟩)
  have hcost : padCost (65536 + 0) = 65545 := by decide
  have hstart : size - (unpadded f).length - 7 = 65536 := by omega
  rw [hstart, hcost] at hroom
  omega

/-- Exactly the frames and sizes on which the two encoders agree. -/
theorem padded_agrees (core : Codec.SerdeReader) (hcore : core.Lawful) (relay : GoReader) (hrelay : relay.Lawful) (f : Codec.Frame) (size : Nat)
    (hsize : size < maxFrameBytes) : Agrees core relay f size ↔
      keyless f.payload = false ∧ within f.payload = true ∧ (unpadded f).length ≤ maxFrameBytes ∧ gapFits (unpadded f).length size := by
  refine ⟨fits_of_agrees hrelay hsize, ?_⟩
  rintro ⟨hkey, hwithin, hlength, hfits⟩
  exact agrees_of_fits hcore hrelay hsize hkey hwithin hlength hfits

section example_run

open Demo

def ping : Codec.Frame := ⟨7, .ping⟩

theorem unpadded_ping : (unpadded ping).length = 18 := by
  rw [unpadded_eq]
  decide +kernel

theorem ping_padded_to_256 : Agrees serdeReader goReader ping 256 := by
  refine (padded_agrees serdeReader serdeReader_lawful goReader goReader_lawful ping 256 (by decide)).2 ⟨rfl, rfl, ?_, ?_⟩
  · rw [unpadded_ping]
    decide
  · rw [unpadded_ping]
    exact Or.inr (Or.inl ⟨by omega, by omega⟩)

/-- One byte short of the size, the core adds five bytes and the relay six. -/
theorem one_byte_short_differs : ∃ f size b c, size < maxFrameBytes ∧ Codec.encodePadded f size = some (.ok b) ∧
    encodePadded goReader (.of f) size = some (.ok c) ∧ b.length = 23 ∧ c.length = 24 ∧ ¬ Agrees serdeReader goReader f size := by
  have hlength := unpadded_ping
  have hzero : padCost 0 = 5 := by decide
  have hone : padCost 1 = 6 := by decide
  have hmax : maxFrameBytes = 1048576 := rfl
  have hbytes : ∀ n, (corePad ping.id ping.payload.item n).length = 18 + padCost n := fun n => by
    rw [corePad_length, ← unpadded_eq, hlength]
  have hcore := @core_encodePadded ping 19 (by omega) (by omega) (by omega) 0 (by omega)
    (by rw [hlength, hzero]; omega) fun k hk => absurd hk (Nat.not_lt_zero k)
  have hrelay := @relay_one_zero ping 19 _ goReader_lawful rfl rfl (by omega) (by omega) (by omega) (by omega)
  rw [hlength, if_neg (by rw [hbytes, hzero]; omega)] at hcore
  rw [if_neg (by rw [hbytes, hone]; omega)] at hrelay
  refine ⟨ping, 19, _, _, by omega, hcore, hrelay, by rw [hbytes, hzero], by rw [hbytes, hone], ?_⟩
  intro h
  obtain ⟨-, -, -, hfits⟩ := fits_of_agrees goReader_lawful (by omega) h
  rw [hlength, gapFits] at hfits
  omega

end example_run

end Arveil.RelayCodec
