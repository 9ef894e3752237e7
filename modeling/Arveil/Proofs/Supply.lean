import Arveil.Proofs.Supply.Moves

/-! The supply of key packages over any run. What the relay has left of a device, what it
still misses of the batches the profile holds and the first batch that is yet to be made
never grow together; so the count stays far below the relay's bound whatever is claimed, cut
off or late, and no stored batch is ever refused for it. -/

namespace Arveil.Supply

open RelayStore Log

section invariants

variable {sha256 : Bytes → Bytes} {identityId deviceId : Bytes} {w w' : World}

theorem bounded_moves (h : Bounded sha256 deviceId w.db w.profile w.activity w.late) (hm : Moves sha256 identityId deviceId w w') :
    Bounded sha256 deviceId w'.db w'.profile w'.activity w'.late := by
  cases hm with
  | @other c hc =>
    refine h.fills (fills_relay hc w.db) ⟨Nat.zero_le _, Or.inr ?_⟩
    rfl
  | @quiet kind p a hi hr hg ha hasked =>
    refine (h.profile hi hr).go (fun hkind n hn hnone => ?_) (fun batch hu => ?_) fun batch ht => ?_
    · rcases hasked n hn with hold | rfl
      · exact (h.profile hi hr).asked n (hkind ▸ hold) hnone
      · have hfirst := (h.profile hi hr).first
        omega
    · rw [ha] at hu
      cases hu
    · rw [ht] at ha
      cases ha
  | completed => exact h.profile rfl rfl
  | seeded hnone ha =>
    refine h.dropped (k := .initial) (by rw [ha]; rfl) (fun hk => by cases hk) ?_ rfl (Nat.zero_le _) ?_
    · rintro (_ | _) hne
      · exact absurd rfl hne
      · rfl
    · intro batch hh
      rw [holds, hnone] at hh
      cases hh
  | again hh => exact h.sending hh
  | first ha hnone hlength => exact (h.prepared_initial (by rw [ha]; rfl) hnone hlength _).sending rfl
  | more ha hnone hlow hlength => exact (h.prepared_replenishment ha hnone hlow hlength _).sending rfl
  | @answer kind batch now ha =>
    have hk : Known sha256 w.db w.profile batch := h.known (by rw [ha]; rfl)
    refine (h.publish identityId now hk).go (fun _ n hn => ?_) (fun batch' hu => h.current kind batch' ?_) fun batch' ht => ?_
    · cases hn
    · rw [ha]
      exact hu
    · rcases publish_cases identityId now h hk with hrun | ⟨db', hrun, -, hmiss⟩
      · rw [hrun] at ht
        cases ht
      · rw [hrun] at ht ⊢
        cases ht
        exact hmiss
  | @acknowledged kind batch p a ha hother hself hun hinitial hg hu hasked =>
    refine (h.rest kind hasked hu).dropped (k := kind) ?_ (fun _ => ?_) hother hself hun fun batch' hh => ?_
    · rw [Function.update_self]
      exact hu
    · rw [Function.update_self]
      exact hasked
    · have hcurrent := h.current kind batch (by rw [ha]; rfl)
      obtain rfl : batch = batch' := Option.some.inj (hcurrent.symm.trans hh)
      exact h.taken kind batch ha
  | @cut kind batch ha =>
    have hk : Known sha256 w.db w.profile batch := h.known (by rw [ha]; rfl)
    refine { h.rest kind rfl rfl with late := fun b hb => ?_ }
    rcases List.mem_append.1 hb with hb | hb
    · exact h.late b hb
    · obtain rfl := List.mem_singleton.1 hb
      exact hk
  | @late i batch now hi =>
    have hp := h.publish identityId now (h.late batch (List.mem_of_getElem? hi))
    exact { hp with late := fun b hb => hp.late b (List.mem_of_mem_eraseIdx hb) }

/-- Everything that the relay has or may get of the device was generated here. -/
structure Stored (deviceId : Bytes) (w : World) : Prop where
  held : ∀ kind batch, holds w.profile kind = some batch → batch ⊆ w.profile.generated
  late : ∀ batch ∈ w.late, batch ⊆ w.profile.generated
  rows : ∀ k ∈ w.db.keyPackages, k.deviceId = deviceId → k.bytes ∈ w.profile.generated

theorem publish_rows {batch : List Bytes} {now : Int} {db : Db} {k : RelayStore.KeyPackageRow}
    (hk : k ∈ (publish sha256 identityId deviceId batch now db).2.keyPackages) : k ∈ db.keyPackages ∨ k.bytes ∈ batch := by
  obtain ⟨new, hrows, hnew⟩ := publish_grown sha256 deviceId identityId batch now db
  rw [Table.mem_def, hrows] at hk
  rcases List.mem_append.1 hk with hk | hk
  · exact Or.inl hk
  · exact Or.inr (hnew k hk).2.2.2.2

theorem Stored.published (h : Stored deviceId w) {batch : List Bytes} (hb : batch ⊆ w.profile.generated) (now : Int) :
    ∀ k ∈ (publish sha256 identityId deviceId batch now w.db).2.keyPackages, k.deviceId = deviceId → k.bytes ∈ w.profile.generated :=
  fun k hk hdevice => (publish_rows hk).elim (fun hold => h.rows k hold hdevice) fun hnew => hb hnew

theorem Stored.prepared (h : Stored deviceId w) {k : Kind} {packages : List Bytes} {p : Profile} {a : Kind → Activity} {log : List Entry}
    (hother : ∀ kind, kind ≠ k → holds p kind = holds w.profile kind) (hself : holds p k = some packages)
    (hg : p.generated = w.profile.generated ++ packages) :
    Stored deviceId { w with profile := p, activity := a, log := log } := by
  have hsub : w.profile.generated ⊆ p.generated := hg ▸ List.subset_append_left _ _
  refine ⟨fun kind batch hh => ?_, fun batch hb => List.Subset.trans (h.late batch hb) hsub, fun r hr hdevice => hsub (h.rows r hr hdevice)⟩
  by_cases hkind : kind = k
  · subst hkind
    obtain rfl := Option.some.inj (hself.symm.trans hh)
    show packages ⊆ p.generated
    rw [hg]
    exact List.subset_append_right _ _
  · exact List.Subset.trans (h.held kind batch ((hother kind hkind).symm.trans hh)) hsub

theorem stored_moves (h : Stored deviceId w) (hm : Moves sha256 identityId deviceId w w')
    (hcurrent : ∀ kind batch, underway (w.activity kind) = some batch → holds w.profile kind = some batch) : Stored deviceId w' := by
  cases hm with
  | @other c hc =>
    refine { h with rows := fun k hk hdevice => ?_ }
    rcases (@shelves_call sha256 c w.db).row_from hk with ⟨k₀, hk₀, -, hbytes, -, hdev⟩ | ⟨-, packages, now, rfl, -⟩
    · exact hbytes ▸ h.rows k₀ hk₀ (hdev.trans hdevice)
    · simp [publishes, hdevice] at hc
  | @quiet _ p a hi hr hg ha hasked =>
    refine ⟨fun kind batch hh => ?_, fun batch hb => ?_, fun k hk hdevice => ?_⟩
    · show batch ⊆ p.generated
      rw [hg]
      exact h.held kind batch (holds_congr hi hr ▸ hh)
    · show batch ⊆ p.generated
      rw [hg]
      exact h.late batch hb
    · show k.bytes ∈ p.generated
      rw [hg]
      exact h.rows k hk hdevice
  | completed =>
    refine { h with held := fun kind batch hh => h.held kind batch ?_ }
    cases kind <;> exact hh
  | seeded hnone ha =>
    refine { h with held := fun kind batch hh => ?_ }
    cases kind with
    | initial => cases hh
    | replenishment => exact h.held .replenishment batch hh
  | again hh => exact { h with }
  | first ha hnone hlength =>
    refine h.prepared (k := .initial) ?_ rfl rfl
    rintro (_ | _) hne
    · exact absurd rfl hne
    · rfl
  | more ha hnone hlow hlength =>
    refine h.prepared (k := .replenishment) ?_ rfl rfl
    rintro (_ | _) hne
    · rfl
    · exact absurd rfl hne
  | @answer kind batch now ha =>
    exact { h with rows := h.published (h.held kind batch (hcurrent kind batch (by rw [ha]; rfl))) now }
  | @acknowledged kind batch p a ha hother hself hun hinitial hg hu hasked =>
    refine ⟨fun kind' batch' hh => ?_, fun batch' hb => ?_, fun k hk hdevice => ?_⟩
    · show batch' ⊆ p.generated
      by_cases hkind : kind' = kind
      · rw [hkind] at hh
        rw [hself] at hh
        cases hh
      · rw [hg]
        exact h.held kind' batch' ((hother kind' hkind).symm.trans hh)
    · show batch' ⊆ p.generated
      rw [hg]
      exact h.late batch' hb
    · show k.bytes ∈ p.generated
      rw [hg]
      exact h.rows k hk hdevice
  | @cut kind batch ha =>
    refine { h with late := fun b hb => ?_ }
    rcases List.mem_append.1 hb with hb | hb
    · exact h.late b hb
    · obtain rfl := List.mem_singleton.1 hb
      exact h.held kind b (hcurrent kind b (by rw [ha]; rfl))
  | @late i batch now hi =>
    exact { h with
      late := fun b hb => h.late b (List.mem_of_mem_eraseIdx hb)
      rows := h.published (h.late batch (List.mem_of_getElem? hi)) now }

/-- The batch was prepared, and neither was another one since nor has it been acknowledged. -/
def Open (kind : Kind) (batch : List Bytes) (log : List Entry) : Prop :=
  Since (fun _ => True) (.prepared kind batch) (fun e => ∀ b, e ≠ .prepared kind b ∧ e ≠ .acknowledged kind b) log

/-- Every batch that was prepared has been acknowledged. -/
def Closed (kind : Kind) (log : List Entry) : Prop :=
  Followed (fun _ e => ∃ b, e = .prepared kind b) (fun e => ∃ b, e = .acknowledged kind b) log

/-- A batch is prepared where none is open, the first one only once; what is sent or
acknowledged is the open one. -/
def Justified (before : List Entry) : Entry → Prop
  | .prepared kind _ => Closed kind before ∧ (kind = .initial → ∀ b, .prepared .initial b ∉ before)
  | .sent kind batch | .acknowledged kind batch => Open kind batch before

structure Ledger (p : Profile) (log : List Entry) : Prop where
  held : ∀ kind batch, holds p kind = some batch → Open kind batch log
  settled : ∀ kind, holds p kind = none → Closed kind log
  once : p.initial = none → ∀ batch, .prepared .initial batch ∉ log
  justified : Preceded Justified (fun _ => True) log

variable {p p' : Profile} {log : List Entry}

theorem Open.other {kind kind' : Kind} {batch : List Bytes} {e : Entry} (h : Open kind batch log) (hne : kind' ≠ kind)
    (he : ∀ k b, e = .prepared k b ∨ e = .acknowledged k b → k = kind') : Open kind batch (log ++ [e]) :=
  h.append fun b => ⟨fun hb => hne (he kind b (Or.inl hb)).symm, fun hb => hne (he kind b (Or.inr hb)).symm⟩

theorem Closed.other {kind kind' : Kind} {e : Entry} (h : Closed kind log) (hne : kind' ≠ kind)
    (he : ∀ k b, e = .prepared k b ∨ e = .acknowledged k b → k = kind') : Closed kind (log ++ [e]) :=
  Followed.append h fun ⟨b, hb⟩ => hne (he kind b (Or.inl hb)).symm

theorem Open.not_closed {kind : Kind} {batch : List Bytes} (h : Open kind batch log) : ¬ Closed kind log := by
  intro hclosed
  obtain ⟨before, later, hlog, -, hlater⟩ := h
  obtain ⟨e, he, b, rfl⟩ := hclosed before _ later hlog ⟨batch, rfl⟩
  exact (hlater _ he b).2 rfl

theorem Ledger.congr (h : Ledger p log) (hh : holds p' = holds p) (hi : p'.initial = none → p.initial = none) : Ledger p' log :=
  ⟨by rw [hh]; exact h.held, by rw [hh]; exact h.settled, fun hp => h.once (hi hp), h.justified⟩

theorem Ledger.sent (h : Ledger p log) {kind : Kind} {batch : List Bytes} (hh : holds p kind = some batch) :
    Ledger p (log ++ [.sent kind batch]) := by
  refine ⟨fun k b hk => (h.held k b hk).append fun b' => ⟨by simp, by simp⟩, fun k hk => Followed.append (h.settled k hk) (by simp),
    fun hp b hb => ?_, h.justified.append fun _ => h.held kind batch hh⟩
  exact h.once hp b (by simpa using hb)

theorem Ledger.prepared (h : Ledger p log) {kind : Kind} {batch : List Bytes} (hnone : holds p kind = none)
    (hother : ∀ kind', kind' ≠ kind → holds p' kind' = holds p kind') (hself : holds p' kind = some batch)
    (hi : kind = .initial → p.initial = none) (hi' : p'.initial = none → p.initial = none ∧ kind ≠ .initial) :
    Ledger p' (log ++ [.prepared kind batch]) := by
  have he : ∀ k b, Entry.prepared kind batch = .prepared k b ∨ Entry.prepared kind batch = .acknowledged k b → k = kind := by
    rintro k b (hb | hb) <;> cases hb
    rfl
  refine ⟨fun k b hk => ?_, fun k hk => ?_, fun hp b hb => ?_, h.justified.append fun _ => ⟨h.settled kind hnone, fun hkind => h.once (hi hkind)⟩⟩
  · by_cases hkind : k = kind
    · subst hkind
      obtain rfl := Option.some.inj (hself.symm.trans hk)
      exact since_last trivial
    · exact (h.held k b ((hother k hkind).symm.trans hk)).other (fun heq => hkind heq.symm) he
  · have hkind : k ≠ kind := by
      rintro rfl
      rw [hself] at hk
      cases hk
    exact (h.settled k ((hother k hkind).symm.trans hk)).other (fun heq => hkind heq.symm) he
  · obtain ⟨hp, hkind⟩ := hi' hp
    rcases List.mem_append.1 hb with hb | hb
    · exact h.once hp b hb
    · cases List.mem_singleton.1 hb
      exact hkind rfl

theorem Ledger.acknowledged (h : Ledger p log) {kind : Kind} {batch : List Bytes} (hh : holds p kind = some batch)
    (hother : ∀ kind', kind' ≠ kind → holds p' kind' = holds p kind') (hself : holds p' kind = none)
    (hi : p'.initial = none → p.initial = none) : Ledger p' (log ++ [.acknowledged kind batch]) := by
  have he : ∀ k b, Entry.acknowledged kind batch = .prepared k b ∨ Entry.acknowledged kind batch = .acknowledged k b → k = kind := by
    rintro k b (hb | hb) <;> cases hb
    rfl
  refine ⟨fun k b hk => ?_, fun k hk => ?_, fun hp b hb => ?_, h.justified.append fun _ => h.held kind batch hh⟩
  · have hkind : k ≠ kind := by
      rintro rfl
      rw [hself] at hk
      cases hk
    exact (h.held k b ((hother k hkind).symm.trans hk)).other (fun heq => hkind heq.symm) he
  · by_cases hkind : k = kind
    · subst hkind
      exact Followed.answer ⟨batch, rfl⟩ (by simp)
    · exact (h.settled k ((hother k hkind).symm.trans hk)).other (fun heq => hkind heq.symm) he
  · rcases List.mem_append.1 hb with hb | hb
    · exact h.once (hi hp) b hb
    · cases List.mem_singleton.1 hb

theorem ledger_moves (h : Ledger w.profile w.log) (hm : Moves sha256 identityId deviceId w w')
    (hcurrent : ∀ kind batch, underway (w.activity kind) = some batch → holds w.profile kind = some batch) :
    Ledger w'.profile w'.log := by
  cases hm with
  | other hc => exact h
  | quiet hi hr hg ha hasked => exact h.congr (holds_congr hi hr) fun hp => hi.symm.trans hp
  | completed => exact h.congr (holds_congr rfl rfl) fun hp => hp
  | seeded hnone ha =>
    refine h.congr ?_ fun hp => by cases hp
    funext kind
    cases kind with
    | initial => rw [holds, holds, hnone]; rfl
    | replenishment => rfl
  | again hh =>
    have hsent := h.sent hh
    rwa [← List.append_nil w.log] at hsent
  | @first packages ha hnone hlength =>
    have hprepared : Ledger { w.profile with initial := some (some packages), generated := w.profile.generated ++ packages }
        (w.log ++ [.prepared .initial packages]) := by
      refine h.prepared (by rw [holds, hnone]; rfl) ?_ rfl (fun _ => hnone) fun hp => by cases hp
      rintro (_ | _) hne
      · exact absurd rfl hne
      · rfl
    exact hprepared.sent rfl
  | @more n packages ha hnone hlow hlength =>
    have hprepared : Ledger { w.profile with replenishment := some ⟨packages, n⟩, generated := w.profile.generated ++ packages }
        (w.log ++ [.prepared .replenishment packages]) := by
      refine h.prepared (by rw [holds, hnone]; rfl) ?_ rfl (fun hkind => by cases hkind) fun hp => ⟨hp, by decide⟩
      rintro (_ | _) hne
      · rfl
      · exact absurd rfl hne
    exact hprepared.sent rfl
  | answer ha => exact h
  | @acknowledged kind batch p a ha hother hself hun hinitial hg hu hasked =>
    exact h.acknowledged (hcurrent kind batch (by rw [ha]; rfl)) hother hself hinitial
  | cut ha => exact h
  | late hi => exact h

theorem missing_moves (hm : Moves sha256 identityId deviceId w w') (batch : List Bytes) :
    missing sha256 w'.db batch ⊆ missing sha256 w.db batch := by
  cases hm with
  | @other c hc => exact (fills_relay hc w.db).less batch
  | answer ha => exact (fills_grown (publish_grown sha256 deviceId identityId _ _ w.db)).less batch
  | late hi => exact (fills_grown (publish_grown sha256 deviceId identityId _ _ w.db)).less batch
  | _ => exact Finset.Subset.refl _

structure Invariant (sha256 : Bytes → Bytes) (deviceId : Bytes) (w : World) : Prop where
  bounded : Bounded sha256 deviceId w.db w.profile w.activity w.late
  stored : Stored deviceId w
  ledger : Ledger w.profile w.log
  arrived : ∀ kind batch, .acknowledged kind batch ∈ w.log → missing sha256 w.db batch = ∅

theorem arrived_moves (h : Invariant sha256 deviceId w) (hm : Moves sha256 identityId deviceId w w') :
    ∀ kind batch, .acknowledged kind batch ∈ w'.log → missing sha256 w'.db batch = ∅ := by
  have hold : ∀ kind batch, .acknowledged kind batch ∈ w.log → missing sha256 w'.db batch = ∅ := fun kind batch hmem =>
    Finset.subset_empty.1 (h.arrived kind batch hmem ▸ missing_moves hm batch)
  intro kind batch hmem
  cases hm with
  | again hh => exact hold kind batch (by simpa [send] using hmem)
  | first ha hnone hlength => exact hold kind batch (by simpa [send] using hmem)
  | more ha hnone hlow hlength => exact hold kind batch (by simpa [send] using hmem)
  | @acknowledged kind' batch' p a ha hother hself hun hinitial hg hu hasked =>
    rcases List.mem_append.1 hmem with hmem | hmem
    · exact hold kind batch hmem
    · obtain ⟨rfl, rfl⟩ : kind = kind' ∧ batch = batch' := by simpa using hmem
      exact h.bounded.taken kind batch ha
  | _ => exact hold kind batch hmem

theorem invariant_step (h : Invariant sha256 deviceId w) (e : Event) :
    Invariant sha256 deviceId (step sha256 identityId deviceId w e) := by
  rcases moves_step sha256 identityId deviceId e h.bounded.current with hm | hsame
  · exact ⟨bounded_moves h.bounded hm, stored_moves h.stored hm h.bounded.current, ledger_moves h.ledger hm h.bounded.current,
      arrived_moves h hm⟩
  · rwa [hsame]

theorem invariant_start : Invariant sha256 deviceId start := by
  refine ⟨⟨?_, ?_, fun n hn => ?_, ?_, fun kind batch hu => ?_, fun kind batch ht => ?_, ?_⟩, ⟨?_, ?_, ?_⟩,
    ⟨?_, fun kind hh => followed_nil, fun _ batch => List.not_mem_nil, ?_⟩, ?_⟩
  · have hempty : available deviceId start.db = 0 := rfl
    rw [hempty]
    simp [start, reserve, missing, holds, unprepared, supplyBound, keyPackageTarget, initialKeyPackageCount]
  · simp [start, reserve, missing, holds, unprepared]
  · cases hn
  · rintro (_ | _) batch hh <;> cases hh
  · cases hu
  · cases ht
  · exact fun batch hb => absurd hb List.not_mem_nil
  · rintro (_ | _) batch hh <;> cases hh
  · exact fun batch hb => absurd hb List.not_mem_nil
  · exact fun k hk => absurd hk (Table.not_mem_empty k)
  · rintro (_ | _) batch hh <;> cases hh
  · exact fun before e later hlog => absurd hlog (List.append_ne_nil_of_right_ne_nil _ (List.cons_ne_nil e later)).symm
  · exact fun kind batch hmem => absurd hmem List.not_mem_nil

theorem invariant_after (evs : List Event) : Invariant sha256 deviceId (after sha256 identityId deviceId evs) :=
  Trace.invariant (I := Invariant sha256 deviceId) (fun _ e _ h => invariant_step h e) (Trace.meets_true _ evs) invariant_start

end invariants

end Arveil.Supply
