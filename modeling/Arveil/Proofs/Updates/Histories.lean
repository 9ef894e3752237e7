import Arveil.Lib.Log
import Arveil.Sanity.Updates

/-! The saved state reads back as it was written. A history only rises, and the log says which
announcements were persisted, checked and offered. -/

namespace Arveil.Updates

variable {cx : Dart} {first : File} {timely : Prop}

theorem hex64_str (d : Hex64) : hex64 (.str d.1) = .ok d := dif_pos d.2

theorem restoreAttempt_attemptJson (a : Option Int) : restoreAttempt cx (attemptJson cx a) = .ok a := by
  cases a with
  | none => rfl
  | some t => simp [restoreAttempt, attemptJson, cx.parse_iso]

theorem history_digestJson (h : History) : history h.identity (.int h.sequence) (digestJson h.digest) = .ok h := by
  obtain ⟨i, n, d, h0, hmax, hd⟩ := h
  simp only [history, h0, hmax, and_self, dite_true]
  by_cases hn : n = 0
  · obtain rfl := hd.1 hn
    rw [dif_pos hn]
    rfl
  · rw [dif_neg hn]
    cases d with
    | none => exact absurd (hd.2 rfl) hn
    | some d =>
      rw [digestJson, hex64_str]
      rfl

theorem put_new {t : Histories} {h : History} (hnew : ∀ r ∈ t, r.identity ≠ h.identity) : (put t h).rows = t.rows ++ [h] := by
  unfold put Table.upsert
  cases hi : t.insert h with
  | some t' => exact (Table.insert_eq_some hi).1
  | none =>
    obtain ⟨r, hr, hk⟩ := Table.insert_eq_none.1 hi
    exact absurd hk (hnew r hr)

theorem restoreFeeds_rows (rows : List History) (t t' : Histories) (h : t'.rows = t.rows ++ rows) :
    restoreFeeds t (rows.map historyJson) = .ok t' := by
  induction rows generalizing t with
  | nil =>
    obtain ⟨_, _⟩ := t
    obtain ⟨_, _⟩ := t'
    rw [List.append_nil] at h
    obtain rfl := h
    rfl
  | cons r rows ih =>
    have hnodup := t'.nodup
    rw [h, List.map_append, List.nodup_append] at hnodup
    have hnew : ∀ r' ∈ t, r'.identity ≠ r.identity := fun r' hr' =>
      hnodup.2.2 _ (List.mem_map_of_mem hr') _ (List.mem_map_of_mem List.mem_cons_self)
    have hput : t'.rows = (put t r).rows ++ rows := by
      rw [put_new hnew, h, List.append_assoc]
      rfl
    have hrest := ih (put t r) hput
    simp only [List.map_cons, historyJson, restoreFeeds, hex64_str]
    have hfields : history r.identity (field [("sequence", Json.int r.sequence), ("digest", digestJson r.digest)] "sequence")
        (field [("sequence", Json.int r.sequence), ("digest", digestJson r.digest)] "digest") = .ok r := history_digestJson r
    simp only [Bind.bind, Except.bind, hfields]
    exact hrest

theorem restore_json (s : Saved) : restore cx (s.json cx) = .ok s := by
  have hfeeds : restoreFeeds .empty (s.histories.rows.map historyJson) = .ok s.histories := restoreFeeds_rows _ _ _ rfl
  have hattempt : restoreAttempt cx (attemptJson cx s.lastAttempt) = .ok s.lastAttempt := restoreAttempt_attemptJson _
  simp only [restore, Saved.json, restoreHistories, field, List.lookup_cons, List.lookup_nil, Json.isInt]
  simp [hfeeds, hattempt, Bind.bind, Except.bind, Pure.pure, Except.pure]

/-- Each identity keeps its history, or has a later sequence. -/
def Advances (t t' : Histories) : Prop := ∀ i, t'.get? i = t.get? i ∨ sequenceIn t i < sequenceIn t' i

theorem Advances.refl (t : Histories) : Advances t t := fun _ => Or.inl rfl

theorem sequenceIn_congr {t t' : Histories} {i : Hex64} (h : t'.get? i = t.get? i) : sequenceIn t' i = sequenceIn t i := by
  rw [sequenceIn, sequenceIn, h]

theorem Advances.trans {a b c : Histories} (h : Advances a b) (h' : Advances b c) : Advances a c := by
  intro i
  rcases h i with hab | hab <;> rcases h' i with hbc | hbc
  · exact Or.inl (hbc.trans hab)
  · exact Or.inr (sequenceIn_congr hab ▸ hbc)
  · exact Or.inr (sequenceIn_congr hbc ▸ hab)
  · exact Or.inr (hab.trans hbc)

theorem Advances.le {t t' : Histories} (h : Advances t t') (i : Hex64) : sequenceIn t i ≤ sequenceIn t' i := by
  rcases h i with he | hlt
  · exact (sequenceIn_congr he).ge
  · exact hlt.le

theorem Advances.digest {t t' : Histories} (h : Advances t t') {i : Hex64} (hs : sequenceIn t i = sequenceIn t' i) :
    digestIn t i = digestIn t' i := by
  rcases h i with he | hlt
  · rw [digestIn, digestIn, he]
  · omega

theorem get?_put (t : Histories) (h : History) (i : Hex64) : (put t h).get? i = if h.identity = i then some h else t.get? i := by
  rw [put, Table.get?_upsert]
  by_cases hi : h.identity = i
  · rw [if_pos hi, if_pos hi]
    cases hg : t.get? i with
    | none => rfl
    | some r =>
      obtain ⟨j, n, d, hs⟩ := h
      have hr : r.identity = i := (Table.get?_eq_some.1 hg).2
      simp only [Option.elim, hr, ← hi]
  · rw [if_neg hi, if_neg hi]

theorem freshness_ok {c : Controller} {i : Hex64} {m : UpdateManifest} {now : Int} (h : c.freshness i m now = .ok ()) :
    now < m.expires ∧ (sequenceIn c.histories i < m.sequence ∨
      sequenceIn c.histories i = m.sequence ∧ digestIn c.histories i = some m.digest) := by
  unfold Controller.freshness UpdateManifest.checkFreshness at h
  split_ifs at h with hexpired hroll
  refine ⟨not_le.1 hexpired, ?_⟩
  push Not at hroll
  rcases lt_or_eq_of_le hroll.1 with hlt | heq
  · exact Or.inl hlt
  · exact Or.inr ⟨heq, (hroll.2 heq.symm).symm⟩

theorem advances_accept {c : Controller} {i : Hex64} {m : UpdateManifest} {now : Int} (h : c.freshness i m now = .ok ()) :
    Advances c.histories (c.saving i none none (some m)).histories := by
  intro j
  simp only [Controller.saving, get?_put, sequenceIn]
  by_cases hj : i = j
  · subst hj
    simp only [if_true]
    rcases (freshness_ok h).2 with hlt | ⟨hs, hd⟩
    · exact Or.inr hlt
    · refine Or.inl ?_
      cases hg : c.histories.get? i with
      | none =>
        rw [digestIn, hg] at hd
        cases hd
      | some r =>
        have hid : r.identity = i := (Table.get?_eq_some.1 hg).2
        rw [sequenceIn, hg] at hs
        rw [digestIn, hg] at hd
        cases r
        simp only [Option.bind_some] at hs hd hid
        simp only [hs, hd, hid]
  · rw [if_neg hj]
    exact Or.inl rfl

theorem sequenceIn_accept (c : Controller) (i : Hex64) (m : UpdateManifest) :
    sequenceIn (c.saving i none none (some m)).histories i = m.sequence := by
  simp only [Controller.saving, sequenceIn, get?_put, if_true]

theorem digestIn_accept (c : Controller) (i : Hex64) (m : UpdateManifest) :
    digestIn (c.saving i none none (some m)).histories i = some m.digest := by
  simp only [Controller.saving, digestIn, get?_put, if_true, Option.bind_some]

/-- A content of the store that has the announcement as the accepted one. -/
def Persisted (cx : Dart) (data : Json) (i : Hex64) (m : UpdateManifest) : Prop :=
  ∃ s, restore cx data = .ok s ∧ sequenceIn s.histories i = m.sequence ∧ digestIn s.histories i = some m.digest

def Suits (m : UpdateManifest) (d : UpdateDevice) : Prop := m.android.newerThan d = true ∧ m.android.compatibleWith d = true

def OfferedBefore (log : List Entry) (i : Hex64) (m : UpdateManifest) : Prop :=
  ∃ d, .offered i m (.android m.android) d ∈ log ∧ Suits m d

/-- The histories that a content of the store stands for. -/
def historiesOf (cx : Dart) (f : File) : Histories :=
  match f.load cx with
  | .ok s => s.histories
  | .error _ => .empty

def Entry.leaves (f : File) : Entry → File
  | .wrote data => .holds data
  | _ => f

def stored (first : File) (log : List Entry) : File := log.foldl Entry.leaves first

/-- The announcement has not expired, and the accepted history lets it through. -/
def Passes (cx : Dart) (first : File) (log : List Entry) (i : Hex64) (m : UpdateManifest) (now : Int) : Prop :=
  m.checkFreshness now (sequenceIn (historiesOf cx (stored first log)) i) (digestIn (historiesOf cx (stored first log)) i) = .ok ()

/-- What stands before an entry. -/
def Entry.Due (cx : Dart) (first : File) (timely : Prop) (before : List Entry) : Entry → Prop
  | .wrote _ => True
  | .device _ => True
  | .fresh i m now => Passes cx first before i m now
  | .offered i m u d => (∃ earlier data, before = earlier ++ [Entry.wrote data] ∧ Persisted cx data i m) ∧ .device d ∈ before ∧
      u.newerThan d = true ∧ u.compatibleWith cx d = .ok true
  | .download m now => ∃ earlier i, before = earlier ++ [Entry.fresh i m now] ∧ Passes cx first before i m now ∧
      OfferedBefore before i m
  | .install m _ now => ∃ earlier i began d, before = earlier ++ [Entry.fresh i m began, .device d] ∧
      Passes cx first before i m began ∧ Suits m d ∧ OfferedBefore before i m ∧ (timely → Passes cx first before i m now)

def Noted (cx : Dart) (first : File) (timely : Prop) (log : List Entry) : Prop :=
  Log.Preceded (Entry.Due cx first timely) (fun _ => True) log

theorem OfferedBefore.append {log : List Entry} {i : Hex64} {m : UpdateManifest} (h : OfferedBefore log i m) (es : List Entry) :
    OfferedBefore (log ++ es) i m := by
  obtain ⟨d, hm, hs⟩ := h
  exact ⟨d, List.mem_append_left _ hm, hs⟩

theorem stored_append (log es : List Entry) : stored first (log ++ es) = stored (stored first log) es := List.foldl_append

theorem Passes.append {log : List Entry} {i : Hex64} {m : UpdateManifest} {now : Int} (h : Passes cx first log i m now) {es : List Entry}
    (hes : stored (stored first log) es = stored first log) : Passes cx first (log ++ es) i m now := by
  rw [Passes, stored_append, hes]
  exact h

/-- The history that let an announcement through does so until it expires. -/
theorem Passes.later {log : List Entry} {i : Hex64} {m : UpdateManifest} {now now' : Int} (h : Passes cx first log i m now)
    (hlive : now' < m.expires) : Passes cx first log i m now' := by
  unfold Passes UpdateManifest.checkFreshness at *
  split_ifs at h with hexpired hroll
  rw [if_neg (not_le.2 hlive), if_neg hroll]

end Arveil.Updates
