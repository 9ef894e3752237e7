import Arveil.Spec.SignerLedger
import Arveil.Proofs.UpdateSigner

/-! The ledger of signed sequences under several runs. Where no run replaces the ledger between
another's second reading and its own replacement, no sequence of a channel is signed twice and
no entry is lost. -/

namespace Arveil.Updates.Signer.Ledger

open Trace (Meets)

theorem sequenceOf_map (fields : List (String × Json)) :
    sequenceOf (.map fields) = match field fields "sequence" with
      | .int n => some n
      | _ => none := rfl

theorem sequenceOf_entry (n : Int) (details : List (String × Json)) : sequenceOf (ledgerEntry n details) = some n := by
  rw [ledgerEntry, sequenceOf_map, field_cons, if_pos rfl]

theorem readEntries_map (previous : Int) (fields : List (String × Json)) (es : List Json) :
    readEntries previous (.map fields :: es) = match field fields "sequence" with
      | .int n => do
        check (previous + 1 ≤ n && n ≤ maxSequence) malformedLedger
        readEntries n es
      | _ => raise malformedLedger := rfl

theorem readEntries_cons {previous : Int} {e : Json} {es : List Json} :
    readEntries previous (e :: es) = .ok () ↔
      ∃ n, sequenceOf e = some n ∧ previous < n ∧ n ≤ maxSequence ∧ readEntries n es = .ok () := by
  constructor
  · intro h
    cases e with
    | map fields =>
      rw [readEntries_map] at h
      rw [sequenceOf_map]
      split at h
      · next n hn =>
        obtain ⟨_, hcheck, h⟩ := bind_ok h
        have hrange := check_ok hcheck
        rw [Bool.and_eq_true, decide_eq_true_eq, decide_eq_true_eq] at hrange
        exact ⟨n, rfl, by omega, hrange.2, h⟩
      · cases h
    | _ => cases h
  · rintro ⟨n, hseq, hlow, hmax, h⟩
    cases e with
    | map fields =>
      rw [sequenceOf_map] at hseq
      rw [readEntries_map]
      split at hseq
      · next m hm =>
        obtain rfl := Option.some.inj hseq
        have hcheck : (decide (previous + 1 ≤ m) && decide (m ≤ maxSequence)) = true := by
          rw [decide_eq_true (show previous + 1 ≤ m by omega), decide_eq_true hmax]
          rfl
        rw [check, if_pos hcheck]
        exact h
      · cases hseq
    | _ => cases hseq

theorem readEntries_iff {previous : Int} {es : List Json} :
    readEntries previous es = .ok () ↔
      ∃ ns : List Int, es.map sequenceOf = ns.map some ∧ (previous :: ns).Pairwise (· < ·) ∧ ∀ n ∈ ns, n ≤ maxSequence := by
  induction es generalizing previous with
  | nil =>
    refine ⟨fun _ => ⟨[], rfl, List.pairwise_singleton _ _, nofun⟩, fun _ => rfl⟩
  | cons e es ih =>
    rw [readEntries_cons]
    constructor
    · rintro ⟨n, hseq, hlow, hmax, h⟩
      obtain ⟨ns, hns, hrise, hall⟩ := ih.1 h
      refine ⟨n :: ns, by rw [List.map_cons, List.map_cons, hseq, hns], ?_, ?_⟩
      · refine List.pairwise_cons.2 ⟨fun m hm => ?_, hrise⟩
        rcases List.mem_cons.1 hm with rfl | hm
        · exact hlow
        · exact Int.lt_trans hlow ((List.pairwise_cons.1 hrise).1 m hm)
      · intro m hm
        rcases List.mem_cons.1 hm with rfl | hm
        · exact hmax
        · exact hall m hm
    · rintro ⟨ns, hns, hrise, hall⟩
      cases ns with
      | nil => cases hns
      | cons n ns =>
        obtain ⟨hseq, hns⟩ := List.cons.inj hns
        obtain ⟨hlow, hrise⟩ := List.pairwise_cons.1 hrise
        exact ⟨n, hseq, hlow n List.mem_cons_self, hall n List.mem_cons_self,
          ih.2 ⟨ns, hns, hrise, fun m hm => hall m (List.mem_cons_of_mem n hm)⟩⟩

def entriesOf (channels : List (String × Json)) (channel : String) : List Json :=
  match field channels channel with
  | .list es => es
  | _ => []

theorem lastSequence_eq (channels : List (String × Json)) (channel : String) :
    lastSequence channels channel = ((entriesOf channels channel).getLast?).bind sequenceOf := by
  unfold lastSequence entriesOf
  generalize field channels channel = v
  cases v with
  | list es =>
    dsimp only
    cases es.getLast? with
    | none => rfl
    | some e => cases e <;> rfl
  | _ => rfl

theorem readChannels_cons {c : String} {v : Json} {rest : List (String × Json)} :
    readChannels ((c, v) :: rest) = .ok () ↔
      ∃ es, v = .list es ∧ (c = "stable" ∨ c = "beta") ∧ es ≠ [] ∧ readEntries 0 es = .ok () ∧ readChannels rest = .ok () := by
  have heq : ∀ es : List Json, readChannels ((c, .list es) :: rest) = (do
      check (["stable", "beta"].contains c && !es.isEmpty) malformedLedger
      readEntries 0 es
      readChannels rest) := fun _ => rfl
  constructor
  · intro h
    cases v with
    | list es =>
      rw [heq] at h
      obtain ⟨_, hcheck, h⟩ := bind_ok h
      obtain ⟨_, hentries, hrest⟩ := bind_ok h
      have hvalid := check_ok hcheck
      rw [Bool.and_eq_true] at hvalid
      refine ⟨es, rfl, by simpa using hvalid.1, ?_, hentries, hrest⟩
      rintro rfl
      cases hvalid.2
    | _ => nomatch h
  · rintro ⟨es, rfl, hc, hne, hentries, hrest⟩
    have hcheck : (["stable", "beta"].contains c && !es.isEmpty) = true := by
      rw [Bool.and_eq_true]
      exact ⟨by simpa using hc, by simpa using hne⟩
    rw [heq, check, if_pos hcheck]
    show (readEntries 0 es >>= fun _ => readChannels rest) = .ok ()
    rw [hentries]
    exact hrest

theorem entriesOf_cons (c : String) (v : Json) (rest : List (String × Json)) (channel : String) :
    entriesOf ((c, v) :: rest) channel = if channel = c then (match v with | .list es => es | _ => []) else entriesOf rest channel := by
  unfold entriesOf
  rw [field_cons]
  split_ifs <;> rfl

/-- A channel that was read has rising sequences, and the last of them is the one `sign` compares with. -/
theorem readChannels_rises {channels : List (String × Json)} (h : readChannels channels = .ok ()) (channel : String) :
    ∃ ns : List Int, (entriesOf channels channel).map sequenceOf = ns.map some ∧ (0 :: ns).Pairwise (· < ·) ∧
      (∀ n ∈ ns, n ≤ maxSequence) ∧ lastSequence channels channel = ns.getLast? := by
  have hrises : ∃ ns : List Int, (entriesOf channels channel).map sequenceOf = ns.map some ∧ (0 :: ns).Pairwise (· < ·) ∧
      ∀ n ∈ ns, n ≤ maxSequence := by
    induction channels with
    | nil => exact ⟨[], rfl, List.pairwise_singleton _ _, nofun⟩
    | cons cv rest ih =>
      obtain ⟨c, v⟩ := cv
      obtain ⟨es, rfl, -, -, hentries, hrest⟩ := readChannels_cons.1 h
      rw [entriesOf_cons]
      split_ifs
      · exact readEntries_iff.1 hentries
      · exact ih hrest
  obtain ⟨ns, hns, hrise, hmax⟩ := hrises
  refine ⟨ns, hns, hrise, hmax, ?_⟩
  have hlast := congrArg List.getLast? hns
  rw [List.getLast?_map, List.getLast?_map] at hlast
  rw [lastSequence_eq]
  cases he : (entriesOf channels channel).getLast? with
  | none =>
    rw [he] at hlast
    cases hn : ns.getLast? with
    | none => rfl
    | some n =>
      rw [hn] at hlast
      cases hlast
  | some e =>
    rw [he] at hlast
    cases hn : ns.getLast? with
    | none =>
      rw [hn] at hlast
      cases hlast
    | some n =>
      rw [hn] at hlast
      exact Option.some.inj hlast

theorem entriesOf_append {channels : List (String × Json)} (h : readChannels channels = .ok ()) (channel channel' : String) (e : Json) :
    entriesOf (appendEntry channel e channels) channel' =
      if channel' = channel then entriesOf channels channel' ++ [e] else entriesOf channels channel' := by
  induction channels with
  | nil =>
    rw [appendEntry, entriesOf_cons]
    split_ifs <;> rfl
  | cons cv rest ih =>
    obtain ⟨c, v⟩ := cv
    obtain ⟨es, rfl, -, -, -, hrest⟩ := readChannels_cons.1 h
    unfold appendEntry
    by_cases hc : c = channel
    · subst hc
      rw [if_pos rfl, entriesOf_cons, entriesOf_cons]
      split_ifs <;> rfl
    · rw [if_neg hc, entriesOf_cons, entriesOf_cons, ih hrest]
      by_cases hc' : channel' = c
      · subst hc'
        rw [if_pos rfl, if_neg hc, if_pos rfl]
      · rw [if_neg hc', if_neg hc']

theorem readChannels_append {channels : List (String × Json)} {n : Int} (details : List (String × Json)) (channel : Channel)
    (h : readChannels channels = .ok ()) (hlast : (lastSequence channels channel.text).getD 0 < n) (hmax : n ≤ maxSequence) :
    readChannels (appendEntry channel.text (ledgerEntry n details) channels) = .ok () := by
  have hkind : channel.text = "stable" ∨ channel.text = "beta" := by cases channel <;> simp [Channel.text]
  obtain ⟨ns, hns, hrise, hall, hend⟩ := readChannels_rises h channel.text
  have happended : readEntries 0 (entriesOf channels channel.text ++ [ledgerEntry n details]) = .ok () := by
    refine readEntries_iff.2 ⟨ns ++ [n], ?_, ?_, ?_⟩
    · rw [List.map_append, List.map_append, hns, List.map_singleton, List.map_singleton, sequenceOf_entry]
    · rw [← List.cons_append]
      refine List.pairwise_append.2 ⟨hrise, List.pairwise_singleton _ _, fun m hm k hk => ?_⟩
      obtain rfl := List.mem_singleton.1 hk
      rw [hend] at hlast
      cases hn : ns.getLast? with
      | none =>
        rw [List.getLast?_eq_none_iff.1 hn] at hm
        rw [hn] at hlast
        rw [List.mem_singleton.1 hm]
        exact hlast
      | some last =>
        obtain ⟨init, rfl⟩ := List.getLast?_eq_some_iff.1 hn
        rw [hn, Option.getD_some] at hlast
        rw [← List.cons_append] at hrise hm
        rcases List.mem_append.1 hm with hm | hm
        · exact Int.lt_trans ((List.pairwise_append.1 hrise).2.2 m hm last (List.mem_singleton_self last)) hlast
        · exact List.mem_singleton.1 hm ▸ hlast
    · intro m hm
      rcases List.mem_append.1 hm with hm | hm
      · exact hall m hm
      · exact List.mem_singleton.1 hm ▸ hmax
  clear hns hrise hall hend hlast ns
  induction channels with
  | nil => exact readChannels_cons.2 ⟨_, rfl, hkind, List.cons_ne_nil _ _, happended, rfl⟩
  | cons cv rest ih =>
    obtain ⟨c, v⟩ := cv
    obtain ⟨es, rfl, hc, hne, hentries, hrest⟩ := readChannels_cons.1 h
    rw [entriesOf_cons] at happended
    unfold appendEntry
    by_cases hsame : c = channel.text
    · rw [if_pos hsame.symm] at happended
      rw [if_pos hsame]
      exact readChannels_cons.2 ⟨_, rfl, hc, by simp, happended, hrest⟩
    · rw [if_neg (Ne.symm hsame)] at happended
      rw [if_neg hsame]
      exact readChannels_cons.2 ⟨es, rfl, hc, hne, hentries, ih hrest happended⟩

theorem readLedger_ok {ledger : LedgerFile} {channels : List (String × Json)} (h : readLedger ledger = .ok channels) :
    readChannels channels = .ok () := by
  unfold readLedger at h
  split at h
  · obtain rfl := Except.ok.inj h
    rfl
  · nomatch h
  · split at h
    · obtain ⟨_, -, h⟩ := bind_ok h
      obtain ⟨_, hread, h⟩ := bind_ok h
      obtain rfl := Except.ok.inj h
      exact hread
    · nomatch h
  · nomatch h

theorem readLedger_map (fields : List (String × Json)) :
    readLedger (.holds (.map fields)) = match field fields "channels" with
      | .map channels => do
        check (fields.length == 2 && integer (field fields "schema") 1 1) malformedLedger
        readChannels channels
        return channels
      | _ => raise malformedLedger := rfl

theorem readLedger_ledgerFile {channels : List (String × Json)} (h : readChannels channels = .ok ()) :
    readLedger (ledgerFile channels) = .ok channels := by
  rw [ledgerFile, readLedger_map, field_cons, if_neg (by decide), field_cons, if_pos rfl]
  show (check (integer (field [("schema", .int 1), ("channels", .map channels)] "schema") 1 1) malformedLedger >>= fun _ =>
    readChannels channels >>= fun _ => pure channels) = .ok channels
  rw [field_cons, if_pos rfl, h]
  rfl

theorem entries_of_read {ledger : LedgerFile} {channels : List (String × Json)} (h : readLedger ledger = .ok channels) (c : Channel) :
    entries ledger c = entriesOf channels c.text := by
  unfold entries
  rw [h]
  rfl

theorem text_inj {c c' : Channel} (h : c.text = c'.text) : c = c' := by
  cases c <;> cases c' <;> first | rfl | exact absurd h (by decide)

theorem entries_lt {ledger : LedgerFile} {channels : List (String × Json)} {c : Channel} {n : Int}
    (hread : readLedger ledger = .ok channels) (hlast : (lastSequence channels c.text).getD 0 < n) {e : Json}
    (he : e ∈ entries ledger c) : ∃ m, sequenceOf e = some m ∧ m < n := by
  rw [entries_of_read hread] at he
  obtain ⟨ns, hns, hrise, -, hend⟩ := readChannels_rises (readLedger_ok hread) c.text
  have hmem : sequenceOf e ∈ ns.map some := hns ▸ List.mem_map_of_mem he
  obtain ⟨m, hm, hseq⟩ := List.mem_map.1 hmem
  refine ⟨m, hseq.symm, ?_⟩
  have hfinal := List.getLast?_eq_some_getLast (List.ne_nil_of_mem hm)
  obtain ⟨init, hinit⟩ := List.getLast?_eq_some_iff.1 hfinal
  generalize ns.getLast (List.ne_nil_of_mem hm) = last at hfinal hinit
  subst hinit
  rw [hend, hfinal, Option.getD_some] at hlast
  rcases List.mem_append.1 hm with hm | hm
  · have hrise := (List.pairwise_cons.1 hrise).2
    exact Int.lt_trans ((List.pairwise_append.1 hrise).2.2 m hm last (List.mem_singleton_self last)) hlast
  · exact List.mem_singleton.1 hm ▸ hlast

theorem entries_recorded {ledger : LedgerFile} {channels : List (String × Json)} {n : Int} (details : List (String × Json))
    (channel : Channel) (hread : readLedger ledger = .ok channels) (hlast : (lastSequence channels channel.text).getD 0 < n)
    (hmax : n ≤ maxSequence) (c : Channel) :
    entries (ledgerFile (appendEntry channel.text (ledgerEntry n details) channels)) c =
      if c = channel then entries ledger c ++ [ledgerEntry n details] else entries ledger c := by
  have hvalid := readLedger_ok hread
  rw [entries_of_read (readLedger_ledgerFile (readChannels_append details channel hvalid hlast hmax)), entries_of_read hread,
    entriesOf_append hvalid]
  by_cases hc : c = channel
  · rw [if_pos hc, if_pos (congrArg Channel.text hc)]
  · rw [if_neg hc, if_neg fun h => hc (text_inj h)]

variable {args : Nat → Args} {ledger₀ : LedgerFile}

/-- Nobody has replaced the ledger since the run read it again. -/
def Undisturbed (w : World) (e : Event) : Prop :=
  e.fails = false → ∀ n channels, w.phases e.signer = .reread n channels → readLedger w.ledger = .ok channels

/-- What a run knows where it stands. -/
def Sound (args : Nat → Args) (w : World) (i : Nat) : Phase → Prop
  | .ready => i ∉ w.envelopes.map (·.signer)
  | .chosen n => i ∉ w.envelopes.map (·.signer) ∧ n ≤ maxSequence
  | .reread n channels =>
    i ∉ w.envelopes.map (·.signer) ∧ n ≤ maxSequence ∧ (lastSequence channels (args i).channel.text).getD 0 < n
  | .recorded n => i ∉ w.envelopes.map (·.signer) ∧ (⟨i, (args i).channel, n⟩ : Mark) ∈ w.recorded
  | .written | .failed => True

def Mark.entry (args : Nat → Args) (m : Mark) : Json := ledgerEntry m.sequence (args m.signer).details

structure Inv (args : Nat → Args) (ledger₀ : LedgerFile) (w : World) : Prop where
  prior : ∀ c, entries ledger₀ c <+: entries w.ledger c
  marks : ∀ m ∈ w.recorded, m.entry args ∈ entries w.ledger m.channel
  distinct : (w.recorded.map fun m => (m.channel, m.sequence)).Nodup
  fresh : ∀ m ∈ w.recorded, ∀ e ∈ entries ledger₀ m.channel, sequenceOf e ≠ some m.sequence
  written : ∀ m ∈ w.envelopes, m ∈ w.recorded
  once : (w.envelopes.map (·.signer)).Nodup
  sound : ∀ i, Sound args w i (w.phases i)

theorem Inv.goto {w : World} (h : Inv args ledger₀ w) {i : Nat} {p : Phase} (hp : Sound args w i p) : Inv args ledger₀ (w.goto i p) := by
  refine ⟨h.prior, h.marks, h.distinct, h.fresh, h.written, h.once, fun j => ?_⟩
  show Sound args w j (if j = i then p else w.phases j)
  split_ifs with hj
  · exact hj ▸ hp
  · exact h.sound j

theorem choose_ok {a : Args} {ledger : LedgerFile} {n : Int} (h : choose a ledger = .ok n) : n ≤ maxSequence := by
  obtain ⟨channels, -, h⟩ := bind_ok h
  obtain ⟨requested, -, h⟩ := bind_ok h
  obtain ⟨_, hcheck, h⟩ := bind_ok h
  have hrange := check_ok hcheck
  rw [Bool.and_eq_true, decide_eq_true_eq, decide_eq_true_eq] at hrange
  exact Except.ok.inj h ▸ hrange.2

theorem readAgain_ok {a : Args} {n : Int} {ledger : LedgerFile} {channels : List (String × Json)} (h : readAgain a n ledger = .ok channels) :
    (lastSequence channels a.channel.text).getD 0 < n := by
  obtain ⟨channels', -, h⟩ := bind_ok h
  obtain ⟨_, hcheck, h⟩ := bind_ok h
  obtain rfl := Except.ok.inj h
  exact of_decide_eq_true (check_ok hcheck)

theorem inv_record {w : World} (h : Inv args ledger₀ w) {i : Nat} {n : Int} {channels : List (String × Json)}
    (hphase : w.phases i = .reread n channels) (hread : readLedger w.ledger = .ok channels) :
    Inv args ledger₀ { w.goto i (.recorded n) with
      ledger := ledgerFile (appendEntry (args i).channel.text (ledgerEntry n (args i).details) channels)
      recorded := w.recorded ++ [⟨i, (args i).channel, n⟩] } := by
  have hsound := h.sound i
  rw [hphase] at hsound
  obtain ⟨hnone, hmax, hlast⟩ := hsound
  have hentries := entries_recorded (args i).details (args i).channel hread hlast hmax
  have hgrown : ∀ c, entries w.ledger c <+:
      entries (ledgerFile (appendEntry (args i).channel.text (ledgerEntry n (args i).details) channels)) c := fun c => by
    rw [hentries c]
    split_ifs
    · exact List.prefix_append _ _
    · exact List.prefix_refl _
  refine ⟨fun c => (h.prior c).trans (hgrown c), fun m hm => ?_, ?_, fun m hm e he => ?_, ?_, h.once, fun j => ?_⟩
  · rcases List.mem_append.1 hm with hm | hm
    · exact (hgrown m.channel).subset (h.marks m hm)
    · obtain rfl := List.mem_singleton.1 hm
      show _ ∈ entries (ledgerFile _) (args i).channel
      rw [hentries, if_pos rfl]
      exact List.mem_append_right _ (List.mem_singleton_self _)
  · show ((w.recorded ++ [_]).map _).Nodup
    rw [List.map_append, List.nodup_append]
    refine ⟨h.distinct, List.nodup_singleton _, fun a ha b hb hab => ?_⟩
    obtain ⟨m, hm, rfl⟩ := List.mem_map.1 ha
    rw [List.map_singleton, List.mem_singleton] at hb
    subst hb
    obtain ⟨hchannel, hseq⟩ := Prod.mk.inj hab
    have hmark := h.marks m hm
    rw [hchannel] at hmark
    obtain ⟨k, hk, hlt⟩ := entries_lt hread hlast hmark
    rw [Mark.entry, sequenceOf_entry] at hk
    have hn : n = k := hseq.symm.trans (Option.some.inj hk)
    omega
  · rcases List.mem_append.1 hm with hm | hm
    · exact h.fresh m hm e he
    · obtain rfl := List.mem_singleton.1 hm
      obtain ⟨k, hk, hlt⟩ := entries_lt hread hlast ((h.prior _).subset he)
      rw [hk]
      intro hsame
      have : k = n := Option.some.inj hsame
      omega
  · exact fun m hm => List.mem_append_left _ (h.written m hm)
  · show Sound args _ j (if j = i then .recorded n else w.phases j)
    split_ifs with hj
    · subst hj
      exact ⟨hnone, List.mem_append_right _ (List.mem_singleton_self _)⟩
    · have hother := h.sound j
      cases hp : w.phases j with
      | recorded k =>
        rw [hp] at hother
        exact ⟨hother.1, List.mem_append_left _ hother.2⟩
      | _ =>
        rw [hp] at hother
        exact hother

theorem inv_write {w : World} (h : Inv args ledger₀ w) {i : Nat} {n : Int} (hphase : w.phases i = .recorded n) :
    Inv args ledger₀ { w.goto i .written with envelopes := w.envelopes ++ [⟨i, (args i).channel, n⟩] } := by
  have hsound := h.sound i
  rw [hphase] at hsound
  obtain ⟨hnone, hmark⟩ := hsound
  refine ⟨h.prior, h.marks, h.distinct, h.fresh, fun m hm => ?_, ?_, fun j => ?_⟩
  · rcases List.mem_append.1 hm with hm | hm
    · exact h.written m hm
    · exact List.mem_singleton.1 hm ▸ hmark
  · show ((w.envelopes ++ [_]).map _).Nodup
    rw [List.map_append, List.nodup_append]
    refine ⟨h.once, List.nodup_singleton _, fun a ha b hb hab => hnone ?_⟩
    rw [List.map_singleton, List.mem_singleton] at hb
    have hai : a = i := hab.trans hb
    exact hai ▸ ha
  · show Sound args _ j (if j = i then .written else w.phases j)
    split_ifs with hj
    · trivial
    · have hother := h.sound j
      have hkept : j ∉ w.envelopes.map (·.signer) → j ∉ (w.envelopes ++ [(⟨i, (args i).channel, n⟩ : Mark)]).map (·.signer) := by
        intro hj' hmem
        rw [List.map_append, List.mem_append, List.map_singleton, List.mem_singleton] at hmem
        exact hmem.elim hj' hj
      cases hp : w.phases j with
      | ready =>
        rw [hp] at hother
        exact hkept hother
      | chosen k =>
        rw [hp] at hother
        exact ⟨hkept hother.1, hother.2⟩
      | reread k channels =>
        rw [hp] at hother
        exact ⟨hkept hother.1, hother.2⟩
      | recorded k =>
        rw [hp] at hother
        exact ⟨hkept hother.1, hother.2⟩
      | written => trivial
      | failed => trivial

theorem inv_step {w : World} {e : Event} (he : Undisturbed w e) (h : Inv args ledger₀ w) : Inv args ledger₀ (step args w e) := by
  have hsound := h.sound e.signer
  unfold step
  cases hf : e.fails with
  | true => exact h.goto (p := .failed) trivial
  | false =>
    rw [if_neg (by decide)]
    cases hp : w.phases e.signer with
    | ready =>
      rw [hp] at hsound
      dsimp only
      cases hc : choose (args e.signer) w.ledger with
      | error _ => exact h.goto (p := .failed) trivial
      | ok n => exact h.goto (p := .chosen n) ⟨hsound, choose_ok hc⟩
    | chosen n =>
      rw [hp] at hsound
      dsimp only
      cases hr : readAgain (args e.signer) n w.ledger with
      | error _ => exact h.goto (p := .failed) trivial
      | ok channels => exact h.goto (p := .reread n channels) ⟨hsound.1, hsound.2, readAgain_ok hr⟩
    | reread n channels => exact inv_record h hp (he hf n channels hp)
    | recorded n => exact inv_write h hp
    | written => exact h
    | failed => exact h

/-- What the ledger is for. -/
structure Kept (args : Nat → Args) (ledger₀ : LedgerFile) (w : World) : Prop where
  unique : (w.envelopes.map fun m => (m.channel, m.sequence)).Nodup
  unused : ∀ m ∈ w.envelopes, ∀ e ∈ entries ledger₀ m.channel, sequenceOf e ≠ some m.sequence
  recorded : ∀ m ∈ w.envelopes, ∃ e ∈ entries w.ledger m.channel, sequenceOf e = some m.sequence
  kept : (∀ c, entries ledger₀ c <+: entries w.ledger c) ∧ ∀ m ∈ w.recorded, m.entry args ∈ entries w.ledger m.channel

theorem inv_start (args : Nat → Args) (ledger₀ : LedgerFile) : Inv args ledger₀ (start ledger₀) where
  prior _ := List.prefix_refl _
  marks := nofun
  distinct := List.nodup_nil
  fresh := nofun
  written := nofun
  once := List.nodup_nil
  sound _ := List.not_mem_nil

/-- Where no run replaces the ledger between another's second reading and its replacement, no
sequence is signed twice and no entry is lost. -/
theorem ledger_is_kept (args : Nat → Args) (ledger₀ : LedgerFile) {evs : List Event}
    (hm : Meets (step args) Undisturbed (start ledger₀) evs) : Kept args ledger₀ (Trace.run (step args) (start ledger₀) evs) := by
  have h := Trace.invariant (fun _ _ he h => inv_step he h) hm (inv_start args ledger₀)
  refine ⟨?_, fun m hm => h.fresh m (h.written m hm), fun m hm => ?_, h.prior, h.marks⟩
  · refine List.Nodup.map_on (fun m hm m' hm' heq => ?_) (List.Nodup.of_map _ h.once)
    exact List.inj_on_of_nodup_map h.distinct (h.written m hm) (h.written m' hm') heq
  · exact ⟨m.entry args, h.marks m (h.written m hm), sequenceOf_entry _ _⟩

namespace Demo

def ledger : LedgerFile := ledgerFile [("stable", .list [ledgerEntry 1 []])]

def started (_ : Nat) : Args := ⟨.stable, none, []⟩

def next (i : Nat) : Event := ⟨i, false⟩

/-- Both runs read the ledger twice before either replaces it. -/
def crossed : List Event := [next 0, next 1, next 0, next 1, next 0, next 1, next 0, next 1]

end Demo

/-- Both sign sequence 2 of the stable channel. -/
theorem crossed_sign_twice :
    (Trace.run (step Demo.started) (start Demo.ledger) Demo.crossed).envelopes = [⟨0, .stable, 2⟩, ⟨1, .stable, 2⟩] ∧
      ¬Kept Demo.started Demo.ledger (Trace.run (step Demo.started) (start Demo.ledger) Demo.crossed) := by
  have hboth : (Trace.run (step Demo.started) (start Demo.ledger) Demo.crossed).envelopes = [⟨0, .stable, 2⟩, ⟨1, .stable, 2⟩] := rfl
  refine ⟨hboth, fun h => ?_⟩
  have hunique := h.unique
  rw [hboth] at hunique
  exact absurd hunique (by decide)

/-- A run that comes after another is kept apart by the ledger. -/
theorem in_turn_is_kept :
    Kept Demo.started Demo.ledger (Trace.run (step Demo.started) (start Demo.ledger)
      [Demo.next 0, Demo.next 0, Demo.next 0, Demo.next 1, Demo.next 0, Demo.next 1, Demo.next 1, Demo.next 1]) := by
  refine ledger_is_kept Demo.started Demo.ledger ⟨?_, ?_, ?_, ?_, ?_, ?_, ?_, ?_, trivial⟩
  all_goals
    intro _ n channels hphase
    cases hphase
  · rfl
  · rfl

end Arveil.Updates.Signer.Ledger
