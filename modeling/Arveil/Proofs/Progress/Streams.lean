import Mathlib.Data.List.Induction
import Mathlib.Algebra.Order.Ring.Nat
import Arveil.Spec.Progress

/-! The reading of a stream, and what each operation leaves of one subscriber: every event published
to it is in its stream, counted by a gap in it, or pending. -/

namespace Arveil.Progress

variable {ω κ : Type}

/-- The number of the next event after some items, if they account for all of them from `a` on. -/
def tally : Nat → List (ProgressEvent ω κ) → Option Nat
  | a, [] => some a
  | a, e :: rest =>
    match e.kind with
    | .change _ => if e.sequence = a then tally (a + 1) rest else none
    | .gap d => if 0 < d then tally (a + d) rest else none

theorem tally_append (a : Nat) (l r : List (ProgressEvent ω κ)) : tally a (l ++ r) = (tally a l).bind fun b => tally b r := by
  induction l generalizing a with
  | nil => rfl
  | cons e l ih =>
    rw [List.cons_append, tally, tally]
    split
    · split_ifs
      · exact ih _
      · rfl
    · split_ifs
      · exact ih _
      · rfl

theorem tally_le {a c : Nat} {l : List (ProgressEvent ω κ)} (h : tally a l = some c) : a ≤ c := by
  induction l generalizing a with
  | nil => exact (Option.some.inj h).le
  | cons e l ih =>
    rw [tally] at h
    split at h
    · split_ifs at h
      have := ih h
      omega
    · split_ifs at h
      have := ih h
      omega

theorem tally_prefix {a c : Nat} {l r : List (ProgressEvent ω κ)} (h : tally a (l ++ r) = some c) : ∃ b, tally a l = some b ∧ b ≤ c := by
  rw [tally_append] at h
  obtain ⟨b, hb, hc⟩ := Option.bind_eq_some_iff.1 h
  exact ⟨b, hb, tally_le hc⟩

def numbers (l : List (ProgressEvent ω κ)) : List Nat :=
  l.filterMap fun e => match e.kind with
    | .change _ => some e.sequence
    | .gap _ => none

theorem numbers_cons (e : ProgressEvent ω κ) (l : List (ProgressEvent ω κ)) :
    numbers (e :: l) = match e.kind with
      | .change _ => e.sequence :: numbers l
      | .gap _ => numbers l := by
  unfold numbers
  cases hk : e.kind <;> simp [hk]

theorem numbers_rise {a c : Nat} {l : List (ProgressEvent ω κ)} (h : tally a l = some c) :
    (numbers l).Pairwise (· < ·) ∧ ∀ n ∈ numbers l, a ≤ n := by
  induction l generalizing a with
  | nil => exact ⟨List.Pairwise.nil, nofun⟩
  | cons e l ih =>
    rw [tally] at h
    split at h
    · next hk =>
      split_ifs at h with hseq
      obtain ⟨hrise, hlow⟩ := ih h
      rw [numbers_cons, hk]
      refine ⟨List.pairwise_cons.2 ⟨fun n hn => ?_, hrise⟩, fun n hn => ?_⟩
      · have := hlow n hn
        omega
      · rcases List.mem_cons.1 hn with rfl | hn
        · exact hseq.ge
        · have := hlow n hn
          omega
    · next hk =>
      split_ifs at h
      obtain ⟨hrise, hlow⟩ := ih h
      rw [numbers_cons, hk]
      exact ⟨hrise, fun n hn => le_trans (Nat.le_add_right a _) (hlow n hn)⟩

/-- The item at a place stands for event `n`: it is the event, or a gap between the events before
and after that counts it. -/
def ToldAt (a : Nat) (items : List (ProgressEvent ω κ)) (n i : Nat) : Prop :=
  ∃ e b, items[i]? = some e ∧ tally a (items.take i) = some b ∧
    match e.kind with
    | .change _ => e.sequence = n ∧ b = n
    | .gap d => b ≤ n ∧ n < b + d

theorem toldAt_zero {a n : Nat} {e : ProgressEvent ω κ} {l : List (ProgressEvent ω κ)} :
    ToldAt a (e :: l) n 0 ↔ match e.kind with
      | .change _ => e.sequence = n ∧ a = n
      | .gap d => a ≤ n ∧ n < a + d := by
  constructor
  · rintro ⟨e', b, he, hb, h⟩
    obtain rfl := Option.some.inj he
    obtain rfl := Option.some.inj hb
    exact h
  · intro h
    exact ⟨e, a, rfl, rfl, h⟩

theorem toldAt_le {a n i : Nat} {l : List (ProgressEvent ω κ)} (h : ToldAt a l n i) : a ≤ n := by
  obtain ⟨e, b, -, hb, h⟩ := h
  have hab := tally_le hb
  split at h
  · omega
  · omega

theorem told_once {a c n : Nat} {l : List (ProgressEvent ω κ)} (h : tally a l = some c) (hlow : a ≤ n) (hhigh : n < c) :
    ∃! i, ToldAt a l n i := by
  induction l generalizing a with
  | nil =>
    have := Option.some.inj h
    omega
  | cons e l ih =>
    rw [tally] at h
    have hnext : ∀ b, tally a [e] = some b → ∀ i, ToldAt a (e :: l) n (i + 1) ↔ ToldAt b l n i := by
      intro b hb i
      have htake : tally a ((e :: l).take (i + 1)) = tally b (l.take i) := by
        rw [List.take_succ_cons, ← List.singleton_append, tally_append, hb, Option.bind_some]
      unfold ToldAt
      rw [htake, List.getElem?_cons_succ]
    have hcase : ∀ b, tally a [e] = some b → tally b l = some c →
        (∀ h0 : n < b, ToldAt a (e :: l) n 0) → (b ≤ n → ¬ToldAt a (e :: l) n 0) → ∃! i, ToldAt a (e :: l) n i := by
      intro b hb hl hin hout
      rcases Nat.lt_or_ge n b with hlt | hge
      · refine ⟨0, hin hlt, fun i hi => ?_⟩
        cases i with
        | zero => rfl
        | succ i => exact absurd (toldAt_le ((hnext b hb i).1 hi)) (Nat.not_le.2 hlt)
      · obtain ⟨i, hi, huniq⟩ := ih hl hge
        refine ⟨i + 1, (hnext b hb i).2 hi, fun j hj => ?_⟩
        cases j with
        | zero => exact absurd hj (hout hge)
        | succ j => exact congrArg (· + 1) (huniq j ((hnext b hb j).1 hj))
    split at h
    · next hk =>
      split_ifs at h with hseq
      refine hcase (a + 1) ?_ h (fun hlt => toldAt_zero.2 ?_) fun hge htold => ?_
      · rw [tally, hk]
        exact if_pos hseq
      · simp only [hk]
        omega
      · have := toldAt_zero.1 htold
        simp only [hk] at this
        omega
    · next d hk =>
      split_ifs at h with hd
      refine hcase (a + d) ?_ h (fun hlt => toldAt_zero.2 ?_) fun hge htold => ?_
      · rw [tally, hk]
        exact if_pos hd
      · simp only [hk]
        omega
      · have := toldAt_zero.1 htold
        simp only [hk] at this
        omega

theorem told_lt {a c n i : Nat} {l : List (ProgressEvent ω κ)} (h : tally a l = some c) (hi : ToldAt a l n i) : n < c := by
  obtain ⟨e, b, he, hb, hn⟩ := hi
  have hsplit : l = l.take i ++ e :: l.drop (i + 1) := by
    obtain ⟨hlt, hat⟩ := List.getElem?_eq_some_iff.1 he
    rw [← hat, ← List.drop_eq_getElem_cons hlt, List.take_append_drop]
  rw [hsplit, tally_append, hb, Option.bind_some, tally] at h
  split at hn
  · next hk =>
    rw [hk] at h
    dsimp only at h
    split_ifs at h
    have := tally_le h
    omega
  · next hk =>
    rw [hk] at h
    dsimp only at h
    split_ifs at h
    have := tally_le h
    omega

/-- A subscriber's stream accounts for what was published, up to its pending counter. -/
structure Counts (published : List (ω × κ)) (s : Watcher ω κ) : Prop where
  stream : ∃ c, tally s.first (s.received ++ s.buffer) = some c ∧ c + s.dropped ≤ published.length ∧
    (s.subscribed = true → c + s.dropped = published.length)
  content : ∀ e ∈ s.received ++ s.buffer, ∀ k, e.kind = .change k → published[e.sequence]? = some (e.operation, k)

theorem counts_own {published : List (ω × κ)} {s : Watcher ω κ} (h : Counts published s) (o : Own) : Counts published (s.own o) := by
  cases o with
  | receive =>
    unfold Watcher.own
    dsimp only
    split_ifs with hsub
    · cases hb : s.buffer with
      | nil => exact h
      | cons e rest =>
        have hsame : (s.received ++ [e]) ++ rest = s.received ++ s.buffer := by rw [hb, List.append_assoc]; rfl
        refine ⟨?_, ?_⟩
        · show ∃ c, tally s.first ((s.received ++ [e]) ++ rest) = some c ∧ _
          rw [hsame]
          exact h.stream
        · show ∀ e' ∈ (s.received ++ [e]) ++ rest, _
          rw [hsame]
          exact h.content
    · exact h
  | unsubscribe =>
    obtain ⟨c, hc, hle, -⟩ := h.stream
    obtain ⟨b, hb, hbc⟩ := tally_prefix hc
    refine ⟨⟨b, ?_, ?_, nofun⟩, fun e he => h.content e ?_⟩
    · show tally s.first (s.received ++ []) = some b
      rw [List.append_nil]
      exact hb
    · show b + s.dropped ≤ published.length
      omega
    · have he : e ∈ s.received ++ [] := he
      rw [List.append_nil] at he
      exact List.mem_append_left _ he

theorem counts_owns {published : List (ω × κ)} {s : Watcher ω κ} (h : Counts published s) (os : List Own) :
    Counts published (os.foldl Watcher.own s) := by
  induction os generalizing s with
  | nil => exact h
  | cons o os ih => exact ih (counts_own h o)

theorem own_fields (s : Watcher ω κ) (o : Own) :
    (s.own o).dropped = s.dropped ∧ (s.own o).registered = s.registered ∧ (s.own o).first = s.first ∧
      ((s.own o).subscribed = true → s.subscribed = true) := by
  cases o with
  | receive =>
    unfold Watcher.own
    dsimp only
    split_ifs with hsub
    · cases s.buffer with
      | nil => exact ⟨rfl, rfl, rfl, fun h => h⟩
      | cons e rest => exact ⟨rfl, rfl, rfl, fun h => h⟩
    · exact ⟨rfl, rfl, rfl, fun h => h⟩
  | unsubscribe => exact ⟨rfl, rfl, rfl, nofun⟩

theorem owns_fields (s : Watcher ω κ) (os : List Own) :
    (os.foldl Watcher.own s).dropped = s.dropped ∧ (os.foldl Watcher.own s).registered = s.registered ∧
      (os.foldl Watcher.own s).first = s.first ∧ ((os.foldl Watcher.own s).subscribed = true → s.subscribed = true) := by
  induction os generalizing s with
  | nil => exact ⟨rfl, rfl, rfl, fun h => h⟩
  | cons o os ih =>
    obtain ⟨hd, hr, hf, hs⟩ := own_fields s o
    obtain ⟨hd', hr', hf', hs'⟩ := ih (s.own o)
    exact ⟨hd'.trans hd, hr'.trans hr, hf'.trans hf, fun h => hs (hs' h)⟩

theorem counts_push {published : List (ω × κ)} {s : Watcher ω κ} {c d : Nat} {e : ProgressEvent ω κ} (h : Counts published s)
    (hc : tally s.first (s.received ++ s.buffer ++ [e]) = some c) (hcount : c + d = published.length)
    (he : ∀ k, e.kind = .change k → published[e.sequence]? = some (e.operation, k)) :
    Counts published { s with buffer := s.buffer ++ [e], dropped := d } := by
  refine ⟨⟨c, ?_, hcount.le, fun _ => hcount⟩, fun e' he' => ?_⟩
  · show tally s.first (s.received ++ (s.buffer ++ [e])) = some c
    rw [← List.append_assoc]
    exact hc
  · have he' : e' ∈ s.received ++ (s.buffer ++ [e]) := he'
    rw [← List.append_assoc] at he'
    rcases List.mem_append.1 he' with he' | he'
    · exact h.content e' he'
    · exact List.mem_singleton.1 he' ▸ he

theorem getElem?_snoc_of {published : List (ω × κ)} {n : Nat} {x y : ω × κ} (h : published[n]? = some x) :
    (published ++ [y])[n]? = some x := by
  rw [List.getElem?_append_left (List.getElem?_eq_some_iff.1 h).1]
  exact h

theorem Counts.gone {published : List (ω × κ)} {s : Watcher ω κ} (h : Counts published s) (x : ω × κ) (hs : s.subscribed = false) :
    Counts (published ++ [x]) s := by
  obtain ⟨c, hc, hle, -⟩ := h.stream
  refine ⟨⟨c, hc, ?_, fun ht => absurd (hs.symm.trans ht) nofun⟩, fun e he k hk => getElem?_snoc_of (h.content e he k hk)⟩
  rw [List.length_append]
  omega

theorem Counts.missed {published : List (ω × κ)} {s : Watcher ω κ} (h : Counts published s) (x : ω × κ) (hs : s.subscribed = true)
    (hroom : s.dropped + 1 < 2 ^ 64) : Counts (published ++ [x]) { s with dropped := wrap (s.dropped + 1) } := by
  obtain ⟨c, hc, -, hcount⟩ := h.stream
  have hc' := hcount hs
  have hnext : c + wrap (s.dropped + 1) = (published ++ [x]).length := by
    rw [List.length_append, wrap, Nat.mod_eq_of_lt hroom]
    show c + (s.dropped + 1) = published.length + 1
    omega
  exact ⟨⟨c, hc, hnext.le, fun _ => hnext⟩, fun e he k hk => getElem?_snoc_of (h.content e he k hk)⟩

/-- The event itself reaches the stream, or is the first one of the next gap. -/
theorem counts_sendEvent {published : List (ω × κ)} {s : Watcher ω κ} (op : ω) (k : κ) (h : Counts published s)
    (hzero : s.dropped = 0) : Counts (published ++ [(op, k)]) (s.sendEvent ⟨published.length, op, .change k⟩) := by
  obtain ⟨c, hc, -, hcount⟩ := h.stream
  unfold Watcher.sendEvent Watcher.trySend
  split_ifs with hsub hfull
  · have hsub : s.subscribed = false := by simpa using hsub
    exact ⟨(h.gone (op, k) hsub).stream, (h.gone (op, k) hsub).content⟩
  · exact h.missed (op, k) (by simpa using hsub) (by omega)
  · have hsub : s.subscribed = true := by simpa using hsub
    have hc' : c = published.length := by
      have := hcount hsub
      omega
    have hend : tally s.first (s.received ++ s.buffer ++ [⟨published.length, op, .change k⟩]) = some (c + 1) := by
      rw [tally_append, hc, Option.bind_some, hc']
      exact if_pos rfl
    have hnext : c + 1 = (published ++ [(op, k)]).length := by rw [List.length_append, hc']; rfl
    have hcontent : ∀ e ∈ s.received ++ (s.buffer ++ [⟨published.length, op, .change k⟩]), ∀ k', e.kind = .change k' →
        (published ++ [(op, k)])[e.sequence]? = some (e.operation, k') := by
      intro e he k' hk
      rw [← List.append_assoc] at he
      rcases List.mem_append.1 he with he | he
      · exact getElem?_snoc_of (h.content e he k' hk)
      · obtain rfl := List.mem_singleton.1 he
        obtain rfl := ProgressKind.change.inj hk
        exact List.getElem?_concat_length
    refine ⟨⟨c + 1, ?_, ?_, fun _ => ?_⟩, hcontent⟩
    · show tally s.first (s.received ++ (s.buffer ++ [_])) = some (c + 1)
      rw [← List.append_assoc]
      exact hend
    · show c + 1 + s.dropped ≤ _
      rw [hzero]
      exact hnext.le
    · show c + 1 + s.dropped = _
      rw [hzero]
      exact hnext

theorem counts_publish {published : List (ω × κ)} {s : Watcher ω κ} (op : ω) (k : κ) (between : List Own) (h : Counts published s)
    (hreg : s.registered = false → s.subscribed = false) (hroom : published.length + 1 < 2 ^ 64) :
    Counts (published ++ [(op, k)]) (s.publish published.length op k between) := by
  obtain ⟨c, hc, hle, hcount⟩ := h.stream
  unfold Watcher.publish
  split_ifs with hr hpending
  · exact h.gone (op, k) (hreg (by simpa using hr))
  · unfold Watcher.trySend
    split_ifs with hsub hfull
    · have hsub : s.subscribed = false := by simpa using hsub
      exact ⟨(h.gone (op, k) hsub).stream, (h.gone (op, k) hsub).content⟩
    · exact h.missed (op, k) (by simpa using hsub) (by omega)
    · have hsub : s.subscribed = true := by simpa using hsub
      -- the gap counts what was lost since the last item
      have hgap : tally s.first (s.received ++ s.buffer ++ [⟨published.length, op, .gap s.dropped⟩]) = some (c + s.dropped) := by
        rw [tally_append, hc, Option.bind_some]
        exact if_pos hpending
      have htold := counts_push (d := 0) h hgap (hcount hsub) nofun
      exact counts_sendEvent op k (counts_owns htold between) (owns_fields _ between).1
  · exact counts_sendEvent op k h (by omega)

theorem sendEvent_registered (e : ProgressEvent ω κ) (s : Watcher ω κ) (hr : s.registered = true)
    (hs : (s.sendEvent e).subscribed = true) : (s.sendEvent e).registered = true := by
  unfold Watcher.sendEvent Watcher.trySend at *
  split_ifs at hs ⊢ with hsub hfull
  · have hs : s.subscribed = true := hs
    rw [hs] at hsub
    exact absurd hsub (by decide)
  · exact hr
  · exact hr

theorem publish_registered (n : Nat) (op : ω) (k : κ) (between : List Own) (s : Watcher ω κ) (hr : s.registered = true)
    (hs : (s.publish n op k between).subscribed = true) : (s.publish n op k between).registered = true := by
  unfold Watcher.publish at *
  rw [hr] at hs ⊢
  rw [if_neg (by decide)] at hs ⊢
  split_ifs at hs ⊢
  · unfold Watcher.trySend at *
    split_ifs at hs ⊢ with hsub hfull
    · have hs : s.subscribed = true := hs
      rw [hs] at hsub
      exact absurd hsub (by decide)
    · exact hr
    · exact sendEvent_registered _ _ ((owns_fields _ between).2.1.trans hr) hs
  · exact sendEvent_registered _ s hr hs

end Arveil.Progress
