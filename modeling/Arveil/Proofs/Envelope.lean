import Arveil.Spec.Envelope
import Arveil.Sanity.Codec

/-! Which payloads the padding loop brings to their bucket. A byte string of zeros cannot
have every encoded length: where the header grows, one or two lengths are skipped, and a
payload that lacks just so many bytes to its bucket cannot be padded. -/

namespace Arveil.Envelope

open Cbor (Item struct)

def plain (kind : UInt8) (payload : Bytes) : InnerPayload := ⟨version, kind, payload, []⟩

/-- What the padding adds to the encoding. -/
def padCost (n : Nat) : Nat := Cbor.headLength n - 1 + n

theorem one_le_headLength (n : Nat) : 1 ≤ Cbor.headLength n := by
  unfold Cbor.headLength
  split_ifs <;> omega

theorem canonical_length (p : InnerPayload) : (canonical p).length = (canonical { p with padding := [] }).length + padCost p.padding.length := by
  have hhead := one_le_headLength p.padding.length
  have hempty : Cbor.headLength 0 = 1 := rfl
  simp only [canonical, Codec.canonical, fields, Cbor.sorted_struct_length, List.map_cons, List.map_nil, List.sum_cons, List.sum_nil,
    List.length_cons, List.length_nil, Item.sorted, Item.write, Cbor.bytes_length, padCost, hempty]
  omega

theorem plain_length (kind : UInt8) (payload : Bytes) :
    (canonical (plain kind payload)).length = (canonical (plain kind [])).length + padCost payload.length := by
  have hhead := one_le_headLength payload.length
  have hempty : Cbor.headLength 0 = 1 := rfl
  simp only [canonical, Codec.canonical, fields, plain, Cbor.sorted_struct_length, List.map_cons, List.map_nil, List.sum_cons,
    List.sum_nil, List.length_cons, List.length_nil, Item.sorted, Item.write, Cbor.bytes_length, padCost, hempty]
  omega

theorem bucketFor_ok {length b : Nat} (h : bucketFor length = .ok b) : length ≤ b ∧ b ≤ 262144 ∧ ∀ b' ∈ buckets, length ≤ b' → b ≤ b' := by
  unfold bucketFor at h
  split at h
  · next b' hfind =>
    obtain rfl := Except.ok.inj h
    have hle : length ≤ b' := by simpa using List.find?_some hfind
    simp only [buckets, List.find?_cons] at hfind
    refine ⟨hle, ?_, fun b hb hlength => ?_⟩
    · repeat' split at hfind
      all_goals first
        | (obtain rfl := Option.some.inj hfind; omega)
        | cases hfind
    · simp only [buckets, List.mem_cons, List.not_mem_nil, or_false] at hb
      repeat' split at hfind
      all_goals first
        | (obtain rfl := Option.some.inj hfind
           simp only [decide_eq_true_eq, decide_eq_false_iff_not] at *
           omega)
        | cases hfind
  · cases h

theorem bucketFor_of_le {length : Nat} (h : length ≤ 262144) : ∃ b, bucketFor length = .ok b := by
  unfold bucketFor
  cases hfind : buckets.find? fun b => length ≤ b with
  | some b => exact ⟨b, rfl⟩
  | none =>
    have hall := List.find?_eq_none.1 hfind 262144 (by decide)
    exact absurd h (by simpa using hall)

section loop

variable {inner : InnerPayload} {target rounds p : Nat}

def padded (inner : InnerPayload) (p : Nat) : InnerPayload :=
  { inner with padding := List.replicate (p - innerPaddingOverhead p) 0 }

def reached (p : Nat) : Nat := padCost (p - innerPaddingOverhead p)

theorem padded_length (inner : InnerPayload) (p : Nat) :
    (canonical (padded inner p)).length = (canonical { inner with padding := [] }).length + reached p := by
  rw [canonical_length, padded, List.length_replicate, reached]

theorem padRounds_hit (h : (canonical { inner with padding := [] }).length + reached p = target) :
    padRounds inner target (rounds + 1) p = .ok (canonical (padded inner p)) := by
  rw [← padded_length] at h
  rw [padRounds]
  exact if_pos h

theorem padRounds_miss (h : (canonical { inner with padding := [] }).length + reached p ≠ target) :
    padRounds inner target (rounds + 1) p =
      padRounds inner target rounds (p + target - ((canonical { inner with padding := [] }).length + reached p)) := by
  have hlength := padded_length inner p
  rw [← hlength] at h ⊢
  rw [padRounds]
  exact if_neg h

/-- The lengths that no byte string of zeros adds. -/
def skipped : List Nat := [24, 257, 65538, 65539]

theorem reached_eq {p : Nat} (hp : p < 2 ^ 32) : reached p =
    if p ≤ 23 then p else if p = 24 then 23 else if p ≤ 255 then p else if p ≤ 257 then p - 1 else if p ≤ 65535 then p
    else if p ≤ 65539 then p - 2 else p := by
  have hhead := Cbor.headLength_spec (p - innerPaddingOverhead p)
  have hover : (p ≤ 23 ∧ innerPaddingOverhead p = 0) ∨ (23 < p ∧ p ≤ 255 ∧ innerPaddingOverhead p = 1) ∨
      (255 < p ∧ p ≤ 65535 ∧ innerPaddingOverhead p = 2) ∨ (65535 < p ∧ innerPaddingOverhead p = 4) := by
    unfold innerPaddingOverhead
    split_ifs <;> omega
  unfold reached padCost
  split_ifs <;> omega

theorem reached_self {gap : Nat} (h : gap ∉ skipped) (hgap : gap < 2 ^ 32) :
    reached gap = gap ∨ gap = 256 ∨ gap = 65536 ∨ gap = 65537 := by
  simp only [skipped, List.mem_cons, List.not_mem_nil, or_false, not_or] at h
  rw [reached_eq hgap]
  split_ifs <;> omega

/-- Just behind the length that a header skips, the second round finds it. -/
theorem padRounds_second {gap d : Nat} (hd : reached gap + d = gap) (hreached : reached (gap + d) = gap) (hpos : 0 < d)
    {base : Nat} (hbase : (canonical { inner with padding := [] }).length = base) :
    padRounds inner (base + gap) (rounds + 2) gap = .ok (canonical (padded inner (gap + d))) := by
  rw [padRounds_miss (by omega), hbase, show gap + (base + gap) - (base + reached gap) = gap + d by omega]
  exact padRounds_hit (by rw [hbase, hreached])

theorem pad_reaches {base gap : Nat} (hbase : (canonical { inner with padding := [] }).length = base) (hgap : gap ≤ 262144)
    (h : gap ∉ skipped) : ∃ p, padRounds inner (base + gap) 4 gap = .ok (canonical (padded inner p)) ∧
      (canonical (padded inner p)).length = base + gap := by
  rcases reached_self h (by omega) with hfirst | hgap
  · exact ⟨gap, padRounds_hit (by rw [hbase, hfirst]), by rw [padded_length, hbase, hfirst]⟩
  · obtain ⟨d, hd, hreached, hpos⟩ : ∃ d, reached gap + d = gap ∧ reached (gap + d) = gap ∧ 0 < d := by
      rcases hgap with rfl | rfl | rfl
      · exact ⟨1, rfl, rfl, by omega⟩
      · exact ⟨2, rfl, rfl, by omega⟩
      · exact ⟨2, rfl, rfl, by omega⟩
    exact ⟨gap + d, padRounds_second hd hreached hpos hbase, by rw [padded_length, hbase, hreached]⟩

theorem reached_ne {gap p : Nat} (h : gap ∈ skipped) (hp : p < 2 ^ 32) : reached p ≠ gap := by
  simp only [skipped, List.mem_cons, List.not_mem_nil, or_false] at h
  rw [reached_eq hp]
  split_ifs <;> omega

theorem reached_le {p : Nat} (hp : p < 2 ^ 32) : reached p ≤ p := by
  rw [reached_eq hp]
  split_ifs <;> omega

theorem reached_add {p : Nat} (hp : p < 2 ^ 32) : p ≤ reached p + 2 := by
  rw [reached_eq hp]
  split_ifs <;> omega

theorem pad_stuck {base gap : Nat} (hbase : (canonical { inner with padding := [] }).length = base) (h : gap ∈ skipped) :
    ∀ p, p + 2 * rounds < 2 ^ 32 → gap ≤ p →
      padRounds inner (base + gap) rounds p = .error (.encode "padding did not converge") := by
  induction rounds with
  | zero => exact fun _ _ _ => rfl
  | succ rounds ih =>
    intro p hp hle
    have hne := reached_ne h (p := p) (by omega)
    rw [padRounds_miss (by omega), hbase]
    have hadd := reached_add (p := p) (by omega)
    have hle' := reached_le (p := p) (by omega)
    refine ih _ ?_ ?_
    · omega
    · omega

end loop

theorem goodFields (p : InnerPayload) : Cbor.goodNames ((fields p).map (·.1)) = true := by
  show Cbor.goodNames ["version", "kind", "payload", "padding"] = true
  decide +kernel

theorem plainFields (p : InnerPayload) : (struct (fields p)).Plain Cbor.maxNesting := by
  refine ⟨fields p, rfl, goodFields p, fun f hf => ?_⟩
  simp only [fields, List.mem_cons, List.not_mem_nil, or_false] at hf
  have hversion := p.version.toNat_lt
  have hkind := p.kind.toNat_lt
  rcases hf with rfl | rfl | rfl | rfl
  · show p.version.toNat < 2 ^ 64
    omega
  · show p.kind.toNat < 2 ^ 64
    omega
  · trivial
  · trivial

theorem decodeInner_canonical {r : Codec.SerdeReader} (hr : r.Lawful) (p : InnerPayload) (hlength : (canonical p).length < 2 ^ 64) :
    decodeInner r (canonical p) = some p := by
  have hread : r.read (canonical p) = some ((struct (fields p)).sorted Cbor.lengthFirst) :=
    hr.read_write _ (Cbor.plain_sorted (plainFields p)) hlength nofun
  have hversion := p.version.toNat_lt
  have hkind := p.kind.toNat_lt
  have hv (name : String) (i : Item) (hname : Cbor.named name (fields p) = some i) (hsorted : i.sorted Cbor.lengthFirst = i) :
      (Cbor.named name (fields p)).map (Item.sorted Cbor.lengthFirst) = some i := by
    rw [hname, Option.map_some, hsorted]
  rw [decodeInner, hread, Option.bind_some, Cbor.struct_sorted hr.toLawful (goodFields p)]
  simp only [Option.bind_eq_bind, Option.bind_some, Codec.SerdeReader.bytesAt, hv "version" (.uint p.version.toNat) rfl rfl,
    hv "kind" (.uint p.kind.toNat) rfl rfl, hv "payload" (.bytes p.payload) rfl rfl, hv "padding" (.bytes p.padding) rfl rfl,
    hr.uint_uint 255 _ (show p.version.toNat ≤ 255 by omega), hr.uint_uint 255 _ (show p.kind.toNat ≤ 255 by omega), hr.bytes_bytes,
    UInt8.ofNat_toNat]
  rfl

/-- A payload is padded to exactly its bucket, and is read back. -/
def Pads (r : Codec.SerdeReader) (kind : UInt8) (payload : Bytes) : Prop :=
  ∃ b e, bucketFor (canonical (plain kind payload)).length = .ok b ∧
    (∀ b' ∈ buckets, (canonical (plain kind payload)).length ≤ b' → b ≤ b') ∧ pad kind payload = .ok e ∧ e.length = b ∧
    ∃ padding, decodeInner r e = some ⟨1, kind, payload, padding⟩

theorem pad_eq {kind : UInt8} {payload : Bytes} {b : Nat} (hb : bucketFor (canonical (plain kind payload)).length = .ok b) :
    pad kind payload = padRounds (plain kind payload) b 4 (b - (canonical (plain kind payload)).length) := by
  unfold pad
  dsimp only
  rw [show (⟨version, kind, payload, []⟩ : InnerPayload) = plain kind payload from rfl, hb]

theorem pad_fails {kind : UInt8} {payload : Bytes} {b : Nat} (hb : bucketFor (canonical (plain kind payload)).length = .ok b)
    (h : b - (canonical (plain kind payload)).length ∈ skipped) : pad kind payload = .error (.encode "padding did not converge") := by
  have hpad := pad_eq hb
  obtain ⟨hle, hmax, -⟩ := bucketFor_ok hb
  obtain ⟨gap, rfl⟩ := Nat.exists_eq_add_of_le hle
  rw [Nat.add_sub_cancel_left] at hpad h
  rw [hpad]
  exact pad_stuck rfl h gap (by omega) (le_refl _)

/-- A payload that fits a bucket is padded to it unless it lacks just so many bytes. -/
theorem pads_iff {r : Codec.SerdeReader} (hr : r.Lawful) {kind : UInt8} {payload : Bytes}
    (hfits : (canonical (plain kind payload)).length ≤ 262144) :
    Pads r kind payload ↔ ∀ b, bucketFor (canonical (plain kind payload)).length = .ok b →
      b - (canonical (plain kind payload)).length ∉ [24, 257, 65538, 65539] := by
  obtain ⟨b, hb⟩ := bucketFor_of_le hfits
  obtain ⟨hle, hmax, hleast⟩ := bucketFor_ok hb
  constructor
  · rintro ⟨_, _, -, -, he, -, -⟩ b' hb' hmem
    rw [pad_fails hb' hmem] at he
    cases he
  · intro h
    have hgap := h _ hb
    have hpad := pad_eq hb
    obtain ⟨gap, rfl⟩ := Nat.exists_eq_add_of_le hle
    rw [Nat.add_sub_cancel_left] at hpad hgap
    obtain ⟨p, hpadded, hlength⟩ := pad_reaches rfl (by omega : gap ≤ 262144) hgap
    have hlength' : (canonical (padded (plain kind payload) p)).length = (canonical (plain kind payload)).length + gap := hlength
    exact ⟨_, _, hb, hleast, hpad.trans hpadded, hlength', _, decodeInner_canonical hr _ (by omega)⟩

theorem plain_one : (canonical (plain 1 [])).length = 34 := by
  decide +kernel

theorem hundred_bytes_padded : (canonical (plain 1 (List.replicate 100 0))).length ≤ 262144 ∧
    Pads Demo.serdeReader 1 (List.replicate 100 0) := by
  have hlength : (canonical (plain 1 (List.replicate 100 0))).length = 135 := by
    rw [plain_length, plain_one, List.length_replicate]
    rfl
  refine ⟨by omega, (pads_iff Demo.serdeReader_lawful (by omega)).2 fun b hb => ?_⟩
  rw [hlength] at hb ⊢
  obtain rfl : 256 = b := Except.ok.inj hb
  decide

/-- With 197 bytes the encoding lacks 24 bytes to its bucket, and the loop ends without a result. -/
theorem lacking_24_not_padded : (canonical (plain 1 (List.replicate 197 0))).length = 232 ∧
    pad 1 (List.replicate 197 0) = .error (.encode "padding did not converge") ∧ ∀ r, ¬ Pads r 1 (List.replicate 197 0) := by
  have hlength : (canonical (plain 1 (List.replicate 197 0))).length = 232 := by
    rw [plain_length, plain_one, List.length_replicate]
    rfl
  have hpad : pad 1 (List.replicate 197 0) = .error (.encode "padding did not converge") := by
    have hbucket : bucketFor (canonical (plain 1 (List.replicate 197 0))).length = .ok 256 := by
      rw [hlength]
      rfl
    exact pad_fails hbucket (by rw [hlength]; decide)
  refine ⟨hlength, hpad, ?_⟩
  rintro r ⟨b, e, -, -, he, -⟩
  rw [hpad] at he
  cases he

end Arveil.Envelope
