import Arveil.Spec.Downloads
import Arveil.Sanity.Platform

/-! Downloads with names of their own do not touch each other: what is received stays as it
was written, and what fails its check was made of its own bytes. Two files of one name share
both their place and their partial copy. -/

namespace Arveil.Downloads

variable {pf : Platform} {fc : FileCipher} {dir : String} {w : World} {id : Bytes} {d : FileDescriptor}

theorem partName_inj {d d' : FileDescriptor} (h : partName d = partName d') : d.safeName = d'.safeName := by
  have hlist := congrArg String.toList h
  simp only [partName, String.toList_append] at hlist
  exact String.toList_inj.1 (List.append_cancel_right hlist)

theorem partName_ne (d : FileDescriptor) : partName d ≠ d.safeName := by
  intro h
  have hlength := congrArg (fun s => s.toList.length) h
  have hpart : (".part").toList.length = 5 := by decide
  simp only [partName, String.toList_append, List.length_append, hpart] at hlength
  omega

theorem Separate.symm {d d' : FileDescriptor} (h : Separate d d') : Separate d' d := ⟨h.1.symm, h.2.2.symm, h.2.1.symm⟩

theorem files_write_self (w : World) (name : String) (b : Option Bytes) : (w.write name b).files name = b := by
  unfold World.write put
  exact if_pos rfl

theorem files_write_of_ne (w : World) {name name' : String} (h : name' ≠ name) (b : Option Bytes) :
    (w.write name b).files name' = w.files name' := by
  unfold World.write put
  exact if_neg h

theorem Own.mono {fetched fetched' : List Fetched} (hsub : ∀ f ∈ fetched, f ∈ fetched') {b : Bytes} (h : Own fetched id b) :
    Own fetched' id b := by
  induction h with
  | none => exact .none
  | more _ hdata ih => exact .more ih (hsub _ hdata)
  | cut _ n ih => exact .cut ih n

def Current (pf : Platform) (w : World) (id : Bytes) (d : FileDescriptor) : Prop :=
  ∃ body, (id, body) ∈ w.announced ∧ pf.fileDescriptor body = .ok d ∧ ∃ e ∈ w.events, e.eventId = id ∧ e.kind = .filePending

def Stands (fc : FileCipher) (w : World) (d : FileDescriptor) : Prop :=
  ∃ ciphertext plain, decrypt fc d ciphertext = .ok plain ∧ w.files d.safeName = some plain

structure Base (pf : Platform) (fc : FileCipher) (dir : String) (w : World) : Prop where
  recorded : ∀ e ∈ w.events, e.kind = .filePending → (e.eventId, e.body) ∈ w.announced
  known : ∀ a ∈ w.announced, ∃ e ∈ w.events, e.eventId = a.1
  unique : ∀ a ∈ w.announced, ∀ b ∈ w.announced, a.1 = b.1 → a = b
  separate : ∀ a ∈ w.announced, ∀ b ∈ w.announced, a.1 ≠ b.1 → ∀ d d', pf.fileDescriptor a.2 = .ok d → pf.fileDescriptor b.2 = .ok d' →
    Separate d d'
  parts : ∀ a ∈ w.announced, ∀ d, pf.fileDescriptor a.2 = .ok d → ∀ b, w.files (partName d) = some b → Own w.fetched a.1 b
  owned : ∀ name b, w.files name = some b → ∃ a ∈ w.announced, ∃ d, pf.fileDescriptor a.2 = .ok d ∧ (name = d.safeName ∨ name = partName d)
  held : Held pf fc dir w
  failures : OwnFailures w

def Phase.current : Phase → List Bytes
  | .next => []
  | .fetch id _ _ | .verify id _ _ | .written id _ | .outcome id _ _ => [id]

def PhaseOk (pf : Platform) (fc : FileCipher) (w : World) : Phase → Prop
  | .next => True
  | .fetch id d ciphertext | .verify id d ciphertext => Current pf w id d ∧ Own w.fetched id ciphertext
  | .written id d => Current pf w id d ∧ Stands fc w d
  | .outcome id d r => Current pf w id d ∧ (r = .ok () → Stands fc w d)

def Ahead (w : World) (current : List Bytes) (pending : List (Bytes × Bytes)) : Prop :=
  (current ++ pending.map (·.1)).Nodup ∧
    ∀ p ∈ pending, p ∈ w.announced ∧ ∃ e ∈ w.events, e.eventId = p.1 ∧ e.kind = .filePending

structure Inv (pf : Platform) (fc : FileCipher) (dir : String) (w : World) : Prop where
  base : Base pf fc dir w
  running : ∀ r, w.run = some r → Ahead w r.phase.current r.pending ∧ PhaseOk pf fc w r.phase

theorem Base.setRun (h : Base pf fc dir w) (run : Option Run) : Base pf fc dir { w with run := run } :=
  ⟨h.recorded, h.known, h.unique, h.separate, h.parts, h.owned, h.held, h.failures⟩

theorem Inv.idle (h : Base pf fc dir w) : Inv pf fc dir { w with run := none } := ⟨h.setRun none, nofun⟩

theorem Base.other (h : Base pf fc dir w) (hc : Current pf w id d) {a : Bytes × Bytes} (ha : a ∈ w.announced) (hne : a.1 ≠ id)
    {d' : FileDescriptor} (hd : pf.fileDescriptor a.2 = .ok d') : Separate d' d := by
  obtain ⟨body, hbody, hdecode, -⟩ := hc
  exact h.separate a ha (id, body) hbody hne d' d hd hdecode

theorem Base.same (h : Base pf fc dir w) (hc : Current pf w id d) {a : Bytes × Bytes} (ha : a ∈ w.announced) (heq : a.1 = id)
    {d' : FileDescriptor} (hd : pf.fileDescriptor a.2 = .ok d') : d' = d := by
  obtain ⟨body, hbody, hdecode, -⟩ := hc
  rw [h.unique a ha (id, body) hbody heq] at hd
  exact Except.ok.inj (hd.symm.trans hdecode)

theorem received_ne (hc : Current pf w id d) {e : EventRow} (he : e ∈ w.events) (hkind : e.kind = .receivedFile) : e.eventId ≠ id := by
  obtain ⟨-, -, -, e', he', hid, hpending⟩ := hc
  intro heq
  rw [Table.eq_of_key he he' (heq.trans hid.symm), hpending] at hkind
  cases hkind

/-- Every file has the name of an announcement, its partial copy included. -/
theorem Base.owned_write (h : Base pf fc dir w) (hc : Current pf w id d) {name : String} (hname : name = d.safeName ∨ name = partName d)
    {content : Option Bytes} : ∀ name' b, (w.write name content).files name' = some b →
      ∃ a ∈ w.announced, ∃ d, pf.fileDescriptor a.2 = .ok d ∧ (name' = d.safeName ∨ name' = partName d) := by
  intro name' b hb
  by_cases heq : name' = name
  · obtain ⟨body, hbody, hdecode, -⟩ := hc
    rw [heq]
    exact ⟨(id, body), hbody, d, hdecode, hname⟩
  · rw [files_write_of_ne w heq] at hb
    exact h.owned name' b hb

theorem Base.writePart (h : Base pf fc dir w) (hc : Current pf w id d) {content : Option Bytes} (hown : ∀ b, content = some b → Own w.fetched id b) :
    Base pf fc dir (w.write (partName d) content) := by
  refine ⟨h.recorded, h.known, h.unique, h.separate, ?_, ?_, ?_, h.failures⟩
  · intro a ha d' hd b hb
    by_cases hname : partName d' = partName d
    · have hid : a.1 = id := by
        by_contra hne
        exact (h.other hc ha hne hd).1 (partName_inj hname)
      rw [hname, files_write_self] at hb
      rw [hid]
      exact hown b hb
    · rw [files_write_of_ne w hname] at hb
      exact h.parts a ha d' hd b hb
  · exact h.owned_write hc (Or.inr rfl)
  · intro e he hkind
    obtain ⟨body, d', ct, plain, ha, hd, hbody, hplain, hfile⟩ := h.held e he hkind
    refine ⟨body, d', ct, plain, ha, hd, hbody, hplain, ?_⟩
    have hname := (h.other hc ha (received_ne hc he hkind) hd).2.1
    rw [files_write_of_ne w hname]
    exact hfile

theorem Base.writeTarget (h : Base pf fc dir w) (hc : Current pf w id d) (content : Option Bytes) :
    Base pf fc dir (w.write d.safeName content) := by
  refine ⟨h.recorded, h.known, h.unique, h.separate, ?_, ?_, ?_, h.failures⟩
  · intro a ha d' hd b hb
    have hname : partName d' ≠ d.safeName := by
      by_cases hid : a.1 = id
      · rw [h.same hc ha hid hd]
        exact partName_ne d
      · exact (h.other hc ha hid hd).2.2
    rw [files_write_of_ne w hname] at hb
    exact h.parts a ha d' hd b hb
  · exact h.owned_write hc (Or.inl rfl)
  · intro e he hkind
    obtain ⟨body, d', ct, plain, ha, hd, hbody, hplain, hfile⟩ := h.held e he hkind
    refine ⟨body, d', ct, plain, ha, hd, hbody, hplain, ?_⟩
    have hname := (h.other hc ha (received_ne hc he hkind) hd).1
    rw [files_write_of_ne w hname]
    exact hfile

theorem Base.setFetched (h : Base pf fc dir w) (f : Fetched) : Base pf fc dir { w with fetched := f :: w.fetched } := by
  have hsub : ∀ f' ∈ w.fetched, f' ∈ f :: w.fetched := fun f' hf' => List.mem_cons_of_mem f hf'
  exact ⟨h.recorded, h.known, h.unique, h.separate, fun a ha d hd b hb => (h.parts a ha d hd b hb).mono hsub, h.owned, h.held,
    fun x hx => (h.failures x hx).mono hsub⟩

theorem Base.setFailed (h : Base pf fc dir w) {b : Bytes} (hown : Own w.fetched id b) : Base pf fc dir { w with failed := (id, b) :: w.failed } := by
  refine ⟨h.recorded, h.known, h.unique, h.separate, h.parts, h.owned, h.held, fun x hx => ?_⟩
  rcases List.mem_cons.1 hx with rfl | hx
  · exact hown
  · exact h.failures x hx

theorem mem_updateEvent {e : EventRow} (he : e ∈ w.events) (hne : e.eventId ≠ id) (kind : EventKind) (body : Bytes) :
    e ∈ (w.updateEvent id kind body).events := by
  dsimp only [World.updateEvent]
  exact Table.mem_update_neg he (decide_eq_false hne)

theorem of_mem_updateEvent {e : EventRow} {kind : EventKind} {body : Bytes} (he : e ∈ (w.updateEvent id kind body).events) :
    e ∈ w.events ∨ e.eventId = id ∧ e.kind = kind ∧ e.body = body := by
  dsimp only [World.updateEvent] at he
  rcases Table.of_mem_update he with ⟨he, -⟩ | ⟨r, -, hr, rfl⟩
  · exact Or.inl he
  · exact Or.inr ⟨of_decide_eq_true hr, rfl, rfl⟩

theorem exists_updateEvent {id' : Bytes} (h : ∃ e ∈ w.events, e.eventId = id') (kind : EventKind) (body : Bytes) :
    ∃ e ∈ (w.updateEvent id kind body).events, e.eventId = id' := by
  dsimp only [World.updateEvent]
  exact Table.exists_key_update.2 h

theorem Base.updateEvent (h : Base pf fc dir w) {kind : EventKind} (body : Bytes) (hkind : kind ≠ .filePending)
    (hheld : kind = .receivedFile → ∃ d, Current pf w id d ∧ body = target dir d ∧ Stands fc w d) :
    Base pf fc dir (w.updateEvent id kind body) := by
  refine ⟨?_, ?_, h.unique, h.separate, h.parts, h.owned, ?_, h.failures⟩
  · intro e he hpending
    rcases of_mem_updateEvent he with he | ⟨-, hset, -⟩
    · exact h.recorded e he hpending
    · exact absurd (hset.symm.trans hpending) hkind
  · intro a ha
    exact exists_updateEvent (h.known a ha) kind body
  · intro e he hreceived
    rcases of_mem_updateEvent he with he | ⟨hid, hset, hbody⟩
    · exact h.held e he hreceived
    · obtain ⟨d, ⟨body', hann, hd, -⟩, htarget, ct, plain, hplain, hfile⟩ := hheld (hset.symm.trans hreceived)
      refine ⟨body', d, ct, plain, ?_, hd, hbody.trans htarget, hplain, hfile⟩
      rw [hid]
      exact hann

theorem Ahead.updateEvent {pending : List (Bytes × Bytes)} (h : Ahead w [id] pending) (kind : EventKind) (body : Bytes) :
    Ahead (w.updateEvent id kind body) [] pending := by
  obtain ⟨hnodup, hpending⟩ := h
  rw [List.singleton_append, List.nodup_cons] at hnodup
  refine ⟨hnodup.2, fun p hp => ⟨(hpending p hp).1, ?_⟩⟩
  obtain ⟨e, he, hid, hkind⟩ := (hpending p hp).2
  have hne : e.eventId ≠ id := fun heq => hnodup.1 (List.mem_map.2 ⟨p, hp, hid.symm.trans heq⟩)
  exact ⟨e, mem_updateEvent he hne kind body, hid, hkind⟩

theorem Inv.goOn (w' : World) (pending : List (Bytes × Bytes)) (phase : Phase) {current : List Bytes} (hbase : Base pf fc dir w')
    (hahead : Ahead w current pending) (hcurrent : phase.current = current) (hevents : w'.events = w.events)
    (hann : w'.announced = w.announced) (hphase : PhaseOk pf fc { w' with run := some ⟨pending, phase⟩ } phase) :
    Inv pf fc dir { w' with run := some ⟨pending, phase⟩ } := by
  refine ⟨hbase.setRun _, fun r hr => ?_⟩
  obtain rfl := Option.some.inj hr
  refine ⟨?_, hphase⟩
  rw [hcurrent]
  refine ⟨hahead.1, fun p hp => ?_⟩
  show p ∈ w'.announced ∧ ∃ e ∈ w'.events, _
  rw [hann, hevents]
  exact hahead.2 p hp

theorem inv_takeNext (h : Base pf fc dir w) {pending : List (Bytes × Bytes)} (hahead : Ahead w [] pending) :
    Inv pf fc dir (takeNext pf w pending) := by
  match pending with
  | [] => exact Inv.idle h
  | (id, body) :: rest =>
    have hnodup : id ∉ rest.map (·.1) ∧ (rest.map (·.1)).Nodup := List.nodup_cons.1 hahead.1
    have hrest : Ahead w [] rest := ⟨hnodup.2, fun p hp => hahead.2 p (List.mem_cons_of_mem _ hp)⟩
    have hthis : Ahead w [id] rest := ⟨hahead.1, hrest.2⟩
    rw [takeNext]
    split
    · exact Inv.goOn w rest .next h hrest rfl rfl rfl trivial
    · cases hd : pf.fileDescriptor body with
      | error e =>
        have hmissing : Base pf fc dir (w.updateEvent id .fileUnavailable (utf8 ("bad descriptor: " ++ e))) :=
          h.updateEvent _ (by decide) fun hkind => by cases hkind
        exact Inv.goOn _ rest .next hmissing (hthis.updateEvent .fileUnavailable _) rfl rfl rfl trivial
      | ok d =>
        obtain ⟨hann, hpending⟩ := hahead.2 (id, body) (List.mem_cons_self ..)
        refine Inv.goOn w rest (.fetch id d _) h hthis rfl rfl rfl ⟨⟨body, hann, hd, hpending⟩, ?_⟩
        dsimp only
        split
        · exact .none
        · cases hpart : w.files (partName d) with
          | none => exact .none
          | some b => exact h.parts (id, body) hann d hd b hpart

theorem inv_takeReply (h : Base pf fc dir w) {pending : List (Bytes × Bytes)} {ciphertext : Bytes} (hahead : Ahead w [id] pending)
    (hc : Current pf w id d) (hown : Own w.fetched id ciphertext) (reply : Reply) (write : Write) :
    Inv pf fc dir (takeReply w pending id d ciphertext reply write) := by
  cases reply with
  | other text => exact Inv.goOn w pending (.outcome id d (.error _)) h hahead rfl rfl rfl ⟨hc, nofun⟩
  | refused text => exact Inv.goOn w pending (.outcome id d (.error text)) h hahead rfl rfl rfl ⟨hc, nofun⟩
  | transport => exact Inv.idle h
  | blobData totalSize data =>
    rw [takeReply]
    split
    · exact Inv.goOn w pending (.verify id d ciphertext) h hahead rfl rfl rfl ⟨hc, hown⟩
    · have hlog := h.setFetched ⟨id, ciphertext.length, data⟩
      have hmore : Own (⟨id, ciphertext.length, data⟩ :: w.fetched) id (ciphertext ++ data) :=
        .more (hown.mono fun f hf => List.mem_cons_of_mem _ hf) (List.mem_cons_self ..)
      have hc' : Current pf { w with fetched := ⟨id, ciphertext.length, data⟩ :: w.fetched } id d := hc
      cases write with
      | torn n text =>
        refine Inv.idle (hlog.writePart hc' fun b hb => ?_)
        obtain rfl := Option.some.inj hb
        exact hmore.cut n
      | done =>
        have hown : ∀ b, some (ciphertext ++ data) = some b → Own (⟨id, ciphertext.length, data⟩ :: w.fetched) id b := by
          intro b hb
          obtain rfl := Option.some.inj hb
          exact hmore
        have hpart := hlog.writePart hc' hown
        dsimp only
        split
        · exact Inv.goOn _ pending (.verify id d (ciphertext ++ data)) hpart hahead rfl rfl rfl ⟨hc, hmore⟩
        · exact Inv.goOn _ pending (.fetch id d (ciphertext ++ data)) hpart hahead rfl rfl rfl ⟨hc, hmore⟩

theorem inv_verifyWhole (h : Base pf fc dir w) {pending : List (Bytes × Bytes)} {ciphertext : Bytes} (hahead : Ahead w [id] pending)
    (hc : Current pf w id d) (hown : Own w.fetched id ciphertext) (write : Write) :
    Inv pf fc dir (verifyWhole fc w pending id d ciphertext write) := by
  rw [verifyWhole]
  cases hplain : decrypt fc d ciphertext with
  | error e => exact Inv.goOn _ pending (.outcome id d (.error e)) (h.setFailed hown) hahead rfl rfl rfl ⟨hc, nofun⟩
  | ok plain =>
    dsimp only
    split
    · exact Inv.goOn w pending (.outcome id d (.error _)) h hahead rfl rfl rfl ⟨hc, nofun⟩
    · cases write with
      | torn n text =>
        exact Inv.goOn _ pending (.outcome id d (.error text)) (h.writeTarget hc (some (plain.take n))) hahead rfl rfl rfl ⟨hc, nofun⟩
      | done =>
        have hstands : Stands fc { w.write d.safeName (some plain) with run := some ⟨pending, .written id d⟩ } d := by
          refine ⟨ciphertext, plain, hplain, ?_⟩
          exact files_write_self w d.safeName _
        exact Inv.goOn _ pending (.written id d) (h.writeTarget hc (some plain)) hahead rfl rfl rfl ⟨hc, hstands⟩

theorem inv_recordOutcome (h : Base pf fc dir w) {pending : List (Bytes × Bytes)} (hahead : Ahead w [id] pending)
    (hc : Current pf w id d) {r : Except String Unit} (hr : r = .ok () → Stands fc w d) : Inv pf fc dir (recordOutcome dir w pending id d r) := by
  cases r with
  | ok u =>
    have hbase : Base pf fc dir (w.updateEvent id .receivedFile (target dir d)) :=
      h.updateEvent _ (by decide) fun _ => ⟨d, hc, rfl, hr rfl⟩
    exact Inv.goOn _ pending .next hbase (hahead.updateEvent .receivedFile _) rfl rfl rfl trivial
  | error reason =>
    have hbase : Base pf fc dir (w.updateEvent id .fileUnavailable (utf8 (d.safeName ++ " (" ++ reason ++ ")"))) :=
      h.updateEvent _ (by decide) fun hkind => by cases hkind
    exact Inv.goOn _ pending .next hbase (hahead.updateEvent .fileUnavailable _) rfl rfl rfl trivial

theorem PhaseOk.mono {w' : World} {phase : Phase} (h : PhaseOk pf fc w phase) (hann : ∀ a ∈ w.announced, a ∈ w'.announced)
    (hevents : ∀ e ∈ w.events, e ∈ w'.events) (hfiles : w'.files = w.files) (hfetched : w'.fetched = w.fetched) : PhaseOk pf fc w' phase := by
  have hcurrent : ∀ {id d}, Current pf w id d → Current pf w' id d := by
    rintro id d ⟨body, hbody, hd, e, he, rest⟩
    exact ⟨body, hann _ hbody, hd, e, hevents e he, rest⟩
  have hstands : ∀ {d}, Stands fc w d → Stands fc w' d := by
    rintro d ⟨ct, plain, hplain, hfile⟩
    exact ⟨ct, plain, hplain, by rw [hfiles]; exact hfile⟩
  cases phase with
  | next => trivial
  | fetch id d ct => exact ⟨hcurrent h.1, by rw [hfetched]; exact h.2⟩
  | verify id d ct => exact ⟨hcurrent h.1, by rw [hfetched]; exact h.2⟩
  | written id d => exact ⟨hcurrent h.1, hstands h.2⟩
  | outcome id d r => exact ⟨hcurrent h.1, fun hr => hstands (h.2 hr)⟩

theorem Ahead.mono {w' : World} {current : List Bytes} {pending : List (Bytes × Bytes)} (h : Ahead w current pending)
    (hann : ∀ a ∈ w.announced, a ∈ w'.announced) (hevents : ∀ e ∈ w.events, e ∈ w'.events) : Ahead w' current pending := by
  refine ⟨h.1, fun p hp => ⟨hann p (h.2 p hp).1, ?_⟩⟩
  obtain ⟨e, he, rest⟩ := (h.2 p hp).2
  exact ⟨e, hevents e he, rest⟩

theorem base_announce (h : Base pf fc dir w) {row : EventRow} (hkind : row.kind = .filePending) (hs : SeparateNames pf w (.announce row))
    {t : Table EventRow.eventId} (hi : w.events.insert row = some t) :
    Base pf fc dir { w with events := t, announced := (row.eventId, row.body) :: w.announced } := by
  have hnew : ∀ a ∈ w.announced, a.1 ≠ row.eventId := by
    intro a ha heq
    obtain ⟨e, he, hid⟩ := h.known a ha
    exact (Table.insert_eq_some hi).2 e he (hid.trans heq)
  refine ⟨?_, ?_, ?_, ?_, ?_, ?_, ?_, h.failures⟩
  · intro e he hpending
    rcases (Table.mem_insert hi).1 he with he | rfl
    · exact List.mem_cons_of_mem _ (h.recorded e he hpending)
    · exact List.mem_cons_self ..
  · intro a ha
    rcases List.mem_cons.1 ha with rfl | ha
    · exact ⟨row, (Table.mem_insert hi).2 (Or.inr rfl), rfl⟩
    · obtain ⟨e, he, hid⟩ := h.known a ha
      exact ⟨e, (Table.mem_insert hi).2 (Or.inl he), hid⟩
  · intro a ha b hb heq
    rcases List.mem_cons.1 ha with rfl | ha <;> rcases List.mem_cons.1 hb with rfl | hb
    · rfl
    · exact absurd heq.symm (hnew b hb)
    · exact absurd heq (hnew a ha)
    · exact h.unique a ha b hb heq
  · intro a ha b hb hne d d' hd hd'
    rcases List.mem_cons.1 ha with rfl | ha <;> rcases List.mem_cons.1 hb with rfl | hb
    · exact absurd rfl hne
    · exact hs d hd b hb d' hd'
    · exact (hs d' hd' a ha d hd).symm
    · exact h.separate a ha b hb hne d d' hd hd'
  · intro a ha d hd b hb
    rcases List.mem_cons.1 ha with rfl | ha
    · -- a file of that name would belong to an announcement that is not separate
      exfalso
      obtain ⟨a', ha', d', hd', hname | hname⟩ := h.owned _ b hb
      · exact (hs d hd a' ha' d' hd').2.2 hname
      · exact (hs d hd a' ha' d' hd').1 (partName_inj hname)
    · exact h.parts a ha d hd b hb
  · intro name b hb
    obtain ⟨a, ha, rest⟩ := h.owned name b hb
    exact ⟨a, List.mem_cons_of_mem _ ha, rest⟩
  · intro e he hreceived
    rcases (Table.mem_insert hi).1 he with he | rfl
    · obtain ⟨body, d, ct, plain, ha, rest⟩ := h.held e he hreceived
      exact ⟨body, d, ct, plain, List.mem_cons_of_mem _ ha, rest⟩
    · cases hkind.symm.trans hreceived

theorem inv_step (h : Inv pf fc dir w) {e : Step} (hs : SeparateNames pf w e) : Inv pf fc dir (step pf fc dir w e) := by
  cases e with
  | announce row =>
    rw [step]
    split
    · exact h
    · rename_i hkind
      cases hi : w.events.insert row with
      | none => exact h
      | some t =>
        refine ⟨base_announce h.base (not_not.1 hkind) hs hi, fun r hr => ?_⟩
        have hann : ∀ a ∈ w.announced, a ∈ (row.eventId, row.body) :: w.announced := fun a ha => List.mem_cons_of_mem _ ha
        have hevents : ∀ e ∈ w.events, e ∈ t := fun e he => (Table.mem_insert hi).2 (Or.inl he)
        obtain ⟨hahead, hphase⟩ := h.running r hr
        exact ⟨hahead.mono hann hevents, hphase.mono hann hevents rfl rfl⟩
  | manage id =>
    refine ⟨⟨h.base.recorded, h.base.known, h.base.unique, h.base.separate, h.base.parts, h.base.owned, h.base.held, h.base.failures⟩,
      fun r hr => ?_⟩
    obtain ⟨hahead, hphase⟩ := h.running r hr
    exact ⟨hahead.mono (fun a ha => ha) fun e he => he, hphase.mono (fun a ha => ha) (fun e he => he) rfl rfl⟩
  | start =>
    rw [step]
    cases hrun : w.run with
    | some r =>
      dsimp only
      exact h
    | none =>
      refine ⟨h.base.setRun _, fun r hr => ?_⟩
      obtain rfl := Option.some.inj hr
      refine ⟨⟨?_, fun p hp => ?_⟩, trivial⟩
      · rw [Phase.current, List.nil_append, List.map_map]
        exact w.events.nodup.sublist (List.filter_sublist.map EventRow.eventId)
      · obtain ⟨e, he, rfl⟩ := List.mem_map.1 hp
        obtain ⟨he, hkind⟩ := List.mem_filter.1 he
        exact ⟨h.base.recorded e he (of_decide_eq_true hkind), e, he, rfl, of_decide_eq_true hkind⟩
  | stop => exact Inv.idle h.base
  | advance reply write removed =>
    rw [step]
    cases hrun : w.run with
    | none =>
      dsimp only
      exact h
    | some r =>
      obtain ⟨pending, phase⟩ := r
      obtain ⟨hahead, hphase⟩ := h.running _ hrun
      cases phase with
      | next => exact inv_takeNext h.base hahead
      | fetch id d ct => exact inv_takeReply h.base hahead hphase.1 hphase.2 reply write
      | verify id d ct => exact inv_verifyWhole h.base hahead hphase.1 hphase.2 write
      | written id d =>
        dsimp only
        split
        · have hstands : Stands fc (w.write (partName d) none) d := by
            obtain ⟨ct, plain, hplain, hfile⟩ := hphase.2
            exact ⟨ct, plain, hplain, by rw [files_write_of_ne w (partName_ne d).symm]; exact hfile⟩
          exact Inv.goOn _ pending (.outcome id d (.ok ())) (h.base.writePart hphase.1 nofun) hahead rfl rfl rfl ⟨hphase.1, fun _ => hstands⟩
        · exact Inv.goOn w pending (.outcome id d (.ok ())) h.base hahead rfl rfl rfl ⟨hphase.1, fun _ => hphase.2⟩
      | outcome id d r => exact inv_recordOutcome h.base hahead hphase.1 hphase.2

theorem inv_fresh (h : Fresh w) : Inv pf fc dir w := by
  obtain ⟨hann, hfetched, hfailed⟩ := h.nothing
  refine ⟨⟨?_, ?_, ?_, ?_, ?_, ?_, ?_, ?_⟩, ?_⟩
  · exact fun e he hkind => absurd hkind (h.events e he).1
  · simp [hann]
  · simp [hann]
  · simp [hann]
  · simp [hann]
  · intro name b hb
    rw [h.files name] at hb
    cases hb
  · exact fun e he hkind => absurd hkind (h.events e he).2
  · simp [OwnFailures, hfailed]
  · intro r hr
    rw [h.idle] at hr
    cases hr

/-- Files announced under separate names stay as they were received, and fail only by their own bytes. -/
theorem separate_downloads (pf : Platform) (fc : FileCipher) (dir : String) (w : World) (hw : Fresh w) (steps : List Step)
    (hs : Trace.Meets (step pf fc dir) (SeparateNames pf) w steps) :
    Held pf fc dir (Trace.run (step pf fc dir) w steps) ∧ OwnFailures (Trace.run (step pf fc dir) w steps) := by
  have h : Inv pf fc dir (Trace.run (step pf fc dir) w steps) := by
    refine Trace.invariant ?_ hs (inv_fresh hw)
    exact fun w e he h => inv_step h he
  exact ⟨h.base.held, h.base.failures⟩

section demo

open Demo

def demoCipher : FileCipher where
  sha256 b := b
  openGcm _ _ ciphertext := if 16 ≤ ciphertext.length then some (ciphertext.take (ciphertext.length - 16)) else none

def demoFile (name : String) (content : UInt8) : FileDescriptor :=
  ⟨1, [content], [2], List.replicate 32 1, List.replicate 12 0, content :: List.replicate 16 0, 1, name, "text/plain"⟩

def demoRow (id : UInt8) (name : String) (content : UInt8) : EventRow :=
  ⟨[5], [id], .filePending, file.write (demoFile name content), none, none⟩

def demoWorld : World := ⟨.empty, fun _ => false, fun _ => none, none, [], [], []⟩

theorem demo_fresh : Fresh demoWorld := ⟨fun e he => absurd he (Table.not_mem_empty e), fun _ => rfl, rfl, rfl, rfl, rfl⟩

theorem demo_descriptor (name : String) (content : UInt8) :
    platform.fileDescriptor (file.write (demoFile name content)) = .ok (demoFile name content) := by
  have hdecoder : platform.decodeFile = file.decode := rfl
  rw [Platform.fileDescriptor, hdecoder, file.decode_write]
  exact if_neg (by simp [demoFile])

/-- One file from beginning to end. -/
def demoDownload (content : UInt8) : List Step :=
  [.advance .transport .done true, .advance (.blobData 17 (content :: List.replicate 16 0)) .done true, .advance .transport .done true,
    .advance .transport .done true, .advance .transport .done true]

/-- Two files, announced and downloaded one after the other. -/
def demoSteps (name name' : String) : List Step :=
  ([.announce (demoRow 1 name 7), .announce (demoRow 2 name' 9), .start] : List Step) ++ demoDownload 7 ++ demoDownload 9

theorem two_names_received :
    Held platform demoCipher "downloads" (Trace.run (step platform demoCipher "downloads") demoWorld (demoSteps "a" "b")) ∧
    OwnFailures (Trace.run (step platform demoCipher "downloads") demoWorld (demoSteps "a" "b")) ∧
    (Trace.run (step platform demoCipher "downloads") demoWorld (demoSteps "a" "b")).files "a" = some [7] := by
  have hmeets : Trace.Meets (step platform demoCipher "downloads") (SeparateNames platform) demoWorld (demoSteps "a" "b") := by
    refine ⟨?_, ?_, ?_⟩
    · intro d hd a ha
      cases ha
    · intro d hd a ha d' hd'
      obtain rfl : a = ([1], file.write (demoFile "a" 7)) := List.mem_singleton.1 ha
      obtain rfl := Except.ok.inj ((demo_descriptor "a" 7).symm.trans hd')
      obtain rfl := Except.ok.inj ((demo_descriptor "b" 9).symm.trans hd)
      exact ⟨by decide +kernel, by decide +kernel, by decide +kernel⟩
    · exact ⟨trivial, trivial, trivial, trivial, trivial, trivial, trivial, trivial, trivial, trivial, trivial, trivial⟩
  obtain ⟨hheld, hown⟩ := separate_downloads platform demoCipher "downloads" demoWorld demo_fresh _ hmeets
  exact ⟨hheld, hown, by decide +kernel⟩

theorem own_bytes {fetched : List Fetched} {b : Bytes} (h : Own fetched id b) : ∀ x ∈ b, ∃ f ∈ fetched, f.id = id ∧ x ∈ f.data := by
  induction h with
  | none => simp
  | more _ hdata ih =>
    intro x hx
    rcases List.mem_append.1 hx with hx | hx
    · exact ih x hx
    · exact ⟨_, hdata, rfl, hx⟩
  | cut _ n ih => exact fun x hx => ih x (List.mem_of_mem_take hx)

/-- The first file is interrupted after a byte and then gone from the relay; the second has its name. -/
def demoInterrupted : List Step :=
  [.announce (demoRow 1 "a" 7), .start, .advance .transport .done true, .advance (.blobData 17 [7]) .done true, .stop,
    .announce (demoRow 2 "a" 9), .start, .advance .transport .done true, .advance (.refused "gone") .done true, .advance .transport .done true,
    .advance .transport .done true, .advance (.blobData 17 (List.replicate 16 0)) .done true, .advance .transport .done true]

/-- Two files of one name: the second takes the place of the first; and what came of the first makes the second fail. -/
theorem equal_names_interfere :
    (∃ e ∈ (Trace.run (step platform demoCipher "downloads") demoWorld (demoSteps "a" "a")).events, e.eventId = [1] ∧ e.kind = .receivedFile) ∧
    (Trace.run (step platform demoCipher "downloads") demoWorld (demoSteps "a" "a")).files "a" = some [9] ∧
    ¬ Held platform demoCipher "downloads" (Trace.run (step platform demoCipher "downloads") demoWorld (demoSteps "a" "a")) ∧
    ¬ OwnFailures (Trace.run (step platform demoCipher "downloads") demoWorld demoInterrupted) := by
  have hevents : (Trace.run (step platform demoCipher "downloads") demoWorld (demoSteps "a" "a")).events.rows =
      [⟨[5], [1], .receivedFile, utf8 "downloads/a", none, none⟩, ⟨[5], [2], .receivedFile, utf8 "downloads/a", none, none⟩] := by
    decide +kernel
  have hann : (Trace.run (step platform demoCipher "downloads") demoWorld (demoSteps "a" "a")).announced =
      [([2], file.write (demoFile "a" 9)), ([1], file.write (demoFile "a" 7))] := by
    decide +kernel
  have hfile : (Trace.run (step platform demoCipher "downloads") demoWorld (demoSteps "a" "a")).files "a" = some [9] := by
    decide +kernel
  have hfirst : (⟨[5], [1], .receivedFile, utf8 "downloads/a", none, none⟩ : EventRow) ∈
      (Trace.run (step platform demoCipher "downloads") demoWorld (demoSteps "a" "a")).events := by
    rw [Table.mem_def, hevents]
    exact List.mem_cons_self ..
  refine ⟨⟨_, hfirst, rfl, rfl⟩, hfile, ?_, ?_⟩
  · intro hheld
    obtain ⟨body, d, ct, plain, ha, hd, -, hplain, hstands⟩ := hheld _ hfirst rfl
    have hbody : body = file.write (demoFile "a" 7) := by
      rw [hann] at ha
      rcases List.mem_pair.1 ha with h | h
      · cases (Prod.mk.inj h).1
      · exact (Prod.mk.inj h).2
    subst hbody
    obtain rfl := Except.ok.inj ((demo_descriptor "a" 7).symm.trans hd)
    have hname : (demoFile "a" 7).safeName = "a" := by decide +kernel
    rw [hname, hfile] at hstands
    obtain rfl := Option.some.inj hstands
    rw [decrypt] at hplain
    split at hplain
    · cases hplain
    · rename_i hhash
      obtain rfl : ct = 7 :: List.replicate 16 0 := not_not.1 hhash
      cases hplain
  · intro hown
    have hfailed : (Trace.run (step platform demoCipher "downloads") demoWorld demoInterrupted).failed = [([2], 7 :: List.replicate 16 0)] := by
      decide +kernel
    have hfetched : (Trace.run (step platform demoCipher "downloads") demoWorld demoInterrupted).fetched =
        [⟨[2], 1, List.replicate 16 0⟩, ⟨[1], 0, [7]⟩] := by
      decide +kernel
    have hthis := hown ([2], 7 :: List.replicate 16 0) (by rw [hfailed]; exact List.mem_singleton.2 rfl)
    obtain ⟨f, hf, hid, hx⟩ := own_bytes hthis 7 (List.mem_cons_self ..)
    rw [hfetched] at hf
    rcases List.mem_pair.1 hf with rfl | rfl
    · exact absurd hx (by decide)
    · cases hid

end demo

end Arveil.Downloads
