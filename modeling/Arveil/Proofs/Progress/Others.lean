import Arveil.Proofs.Progress.Streams

/-! What holds of all subscribers, and what the operations of the others leave of one: it reads what it
would read if it were alone. -/

namespace Arveil.Progress

open Trace (run run_cons run_append)

variable {ω χ κ : Type}

structure Inv (w : World ω κ) : Prop where
  count : w.sequence = w.published.length
  counts : ∀ s ∈ w.watchers, Counts w.published s
  alive : w.handles ≠ 0 → ∀ s ∈ w.watchers, s.subscribed = true → s.registered = true
  ended : w.handles = 0 → w.closed = true ∧ ∀ s ∈ w.watchers, s.registered = false

theorem inv_start : Inv (start : World ω κ) := ⟨rfl, nofun, nofun, nofun⟩

theorem Inv.modify {w : World ω κ} (h : Inv w) (i : Nat) (o : Own) : Inv { w with watchers := w.watchers.modify i (·.own o) } := by
  have hmem : ∀ s ∈ w.watchers.modify i (·.own o), s ∈ w.watchers ∨ ∃ t ∈ w.watchers, s = t.own o := by
    intro s hs
    obtain ⟨j, hj⟩ := List.mem_iff_getElem?.1 hs
    rw [List.getElem?_modify] at hj
    split_ifs at hj
    · obtain ⟨t, ht, rfl⟩ := Option.map_eq_some_iff.1 hj
      exact Or.inr ⟨t, List.mem_of_getElem? ht, rfl⟩
    · obtain ⟨t, ht, rfl⟩ := Option.map_eq_some_iff.1 hj
      exact Or.inl (List.mem_of_getElem? ht)
  refine ⟨h.count, fun s hs => ?_, fun hh s hs hsub => ?_, fun hh => ⟨(h.ended hh).1, fun s hs => ?_⟩⟩
  · rcases hmem s hs with hs | ⟨t, ht, rfl⟩
    · exact h.counts s hs
    · exact counts_own (h.counts t ht) o
  · rcases hmem s hs with hs | ⟨t, ht, rfl⟩
    · exact h.alive hh s hs hsub
    · obtain ⟨-, hr, -, hsub'⟩ := own_fields t o
      exact hr.trans (h.alive hh t ht (hsub' hsub))
  · rcases hmem s hs with hs | ⟨t, ht, rfl⟩
    · exact (h.ended hh).2 s hs
    · exact (own_fields t o).2.1.trans ((h.ended hh).2 t ht)

theorem Inv.publish {w : World ω κ} (h : Inv w) (hroom : w.sequence + 1 < 2 ^ 64) (hh : w.handles ≠ 0) (op : ω) (k : κ)
    (between : Nat → List Own) : Inv (w.publish op k between) := by
  unfold World.publish
  split_ifs
  · have hmem : ∀ s ∈ w.watchers.mapIdx (fun i s => s.publish w.sequence op k (between i)),
        ∃ t ∈ w.watchers, ∃ i, s = t.publish w.sequence op k (between i) := by
      intro s hs
      obtain ⟨i, hi, rfl⟩ := List.mem_mapIdx.1 hs
      exact ⟨_, List.getElem_mem hi, i, rfl⟩
    have hlisten : ∀ t ∈ w.watchers, t.registered = false → t.subscribed = false := by
      intro t ht hr
      by_contra hsub
      exact absurd (h.alive hh t ht (by simpa using hsub)) (by rw [hr]; decide)
    refine ⟨?_, fun s hs => ?_, fun _ s hs hsub => ?_, fun hz => absurd hz hh⟩
    · show wrap (w.sequence + 1) = (w.published ++ [(op, k)]).length
      rw [List.length_append, wrap, Nat.mod_eq_of_lt hroom, h.count]
      rfl
    · obtain ⟨t, ht, i, rfl⟩ := hmem s hs
      rw [h.count]
      exact counts_publish op k (between i) (h.counts t ht) (hlisten t ht) (h.count ▸ hroom)
    · obtain ⟨t, ht, i, rfl⟩ := hmem s hs
      cases hr : t.registered with
      | true => exact publish_registered _ _ _ _ t hr hsub
      | false =>
        have hsame : t.publish w.sequence op k (between i) = t := by
          unfold Watcher.publish
          rw [hr]
          rfl
        rw [hsame] at hsub
        exact absurd hsub (by rw [hlisten t ht hr]; decide)
  · exact h

def Numbered (w : World ω κ) : Event ω χ → Prop
  | .publish .. => w.sequence + 1 < 2 ^ 64
  | _ => True

theorem inv_step (project : χ → Option κ) {w : World ω κ} {e : Event ω χ} (he : Numbered w e) (h : Inv w) :
    Inv (step project w e) := by
  cases e with
  | publish op change between =>
    unfold step
    dsimp only
    split_ifs with hclosed
    · exact h
    · cases project change with
      | none => exact h
      | some kind => exact h.publish he (fun hz => hclosed (h.ended hz).1) op kind between
  | watch =>
    unfold step
    dsimp only
    split_ifs with hz
    · exact h
    · refine ⟨h.count, fun s hs => ?_, fun hh s hs hsub => ?_, fun hh => absurd hh hz⟩
      · rcases List.mem_append.1 hs with hs | hs
        · exact h.counts s hs
        · obtain rfl := List.mem_singleton.1 hs
          exact ⟨⟨w.sequence, rfl, h.count.le, fun _ => h.count⟩, nofun⟩
      · rcases List.mem_append.1 hs with hs | hs
        · exact h.alive hh s hs hsub
        · obtain rfl := List.mem_singleton.1 hs
          rfl
  | own i o => exact h.modify i o
  | wait i => exact h.modify i .receive
  | clone =>
    unfold step
    dsimp only
    split_ifs with hz
    · exact h
    · exact ⟨h.count, h.counts, fun _ => h.alive hz, fun hh => absurd hh (Nat.succ_ne_zero _)⟩
  | close =>
    unfold step
    dsimp only
    split_ifs with hz
    · exact h
    · exact ⟨h.count, h.counts, h.alive, fun hh => absurd hh hz⟩
  | dropHandle =>
    unfold step
    dsimp only
    split
    · exact h
    · refine ⟨h.count, fun s hs => ?_, fun hh => absurd rfl hh, fun _ => ⟨rfl, fun s hs => ?_⟩⟩
      · obtain ⟨t, ht, rfl⟩ := List.mem_map.1 hs
        exact ⟨(h.counts t ht).stream, (h.counts t ht).content⟩
      · obtain ⟨t, -, rfl⟩ := List.mem_map.1 hs
        rfl
    · next n hone hn =>
      have hz : w.handles ≠ 0 := by omega
      exact ⟨h.count, h.counts, fun _ => h.alive hz, fun hh => absurd hh hone⟩

/-- A number as a subscriber counts it from its first one. -/
def since (a n : Nat) : Nat := wrap (n + (2 ^ 64 - wrap a))

theorem since_self (a : Nat) : since a a = 0 := by
  unfold since wrap
  omega

theorem since_next (a n : Nat) : since a (wrap (n + 1)) = wrap (since a n + 1) := by
  unfold since wrap
  omega

def ProgressEvent.renumber (f : Nat → Nat) (e : ProgressEvent ω κ) : ProgressEvent ω κ := { e with sequence := f e.sequence }

def Watcher.renumber (f : Nat → Nat) (s : Watcher ω κ) : Watcher ω κ :=
  { s with
    buffer := s.buffer.map (·.renumber f)
    first := f s.first
    received := s.received.map (·.renumber f) }

/-- A subscriber as it sees itself: what it received and what waits for it, counted from its first number. -/
def Watcher.seen (s : Watcher ω κ) : Watcher ω κ := s.renumber (since s.first)

theorem own_renumber (f : Nat → Nat) (s : Watcher ω κ) (o : Own) : (s.own o).renumber f = (s.renumber f).own o := by
  obtain ⟨buffer, dropped, subscribed, registered, first, received⟩ := s
  cases o with
  | receive =>
    cases subscribed with
    | false => rfl
    | true =>
      cases buffer with
      | nil => rfl
      | cons e rest =>
        simp only [Watcher.own, Watcher.renumber, if_true, List.map_cons, List.map_append, List.map_nil]
  | unsubscribe => rfl

theorem owns_renumber (f : Nat → Nat) (s : Watcher ω κ) (os : List Own) :
    (os.foldl Watcher.own s).renumber f = os.foldl Watcher.own (s.renumber f) := by
  induction os generalizing s with
  | nil => rfl
  | cons o os ih =>
    rw [List.foldl_cons, List.foldl_cons, ih, own_renumber]

theorem trySend_renumber (f : Nat → Nat) (e : ProgressEvent ω κ) (s : Watcher ω κ) :
    (s.renumber f).trySend (e.renumber f) = ((s.trySend e).1, (s.trySend e).2.renumber f) := by
  unfold Watcher.trySend
  have hlen : (s.renumber f).buffer.length = s.buffer.length := List.length_map ..
  rw [hlen]
  show (if !s.subscribed then _ else _) = _
  split_ifs
  · rfl
  · rfl
  · simp only [Watcher.renumber, List.map_append, List.map_cons, List.map_nil]

theorem sendEvent_renumber (f : Nat → Nat) (e : ProgressEvent ω κ) (s : Watcher ω κ) :
    (s.sendEvent e).renumber f = (s.renumber f).sendEvent (e.renumber f) := by
  unfold Watcher.sendEvent
  rw [trySend_renumber]
  rcases s.trySend e with ⟨_ | _ | _, t⟩
  · rfl
  · rfl
  · rfl

theorem publish_renumber (f : Nat → Nat) (n : Nat) (op : ω) (k : κ) (between : List Own) (s : Watcher ω κ) :
    (s.publish n op k between).renumber f = (s.renumber f).publish (f n) op k between := by
  have hregistered : (s.renumber f).registered = s.registered := rfl
  have hdropped : (s.renumber f).dropped = s.dropped := rfl
  have hgap : (⟨f n, op, .gap s.dropped⟩ : ProgressEvent ω κ) = ProgressEvent.renumber f ⟨n, op, .gap s.dropped⟩ := rfl
  unfold Watcher.publish
  rw [hregistered, hdropped, hgap, trySend_renumber]
  split_ifs
  · rfl
  · rcases s.trySend ⟨n, op, .gap s.dropped⟩ with ⟨_ | _ | _, t⟩
    · exact (sendEvent_renumber f _ _).trans (congrArg _ (owns_renumber f _ between))
    · rfl
    · rfl
  · exact sendEvent_renumber f _ s

theorem publish_first (n : Nat) (op : ω) (k : κ) (between : List Own) (s : Watcher ω κ) :
    (s.publish n op k between).first = s.first := by
  have hsend : ∀ (e : ProgressEvent ω κ) (t : Watcher ω κ), (t.sendEvent e).first = t.first := by
    intro e t
    unfold Watcher.sendEvent Watcher.trySend
    split_ifs <;> rfl
  unfold Watcher.publish
  split_ifs
  · rfl
  · unfold Watcher.trySend
    split_ifs
    · rfl
    · rfl
    · exact (hsend _ _).trans (owns_fields _ between).2.2.1
  · exact hsend _ s

/-- Two states of a subscriber that differ in where the registry's numbers began. -/
structure Alike (n n' : Nat) (s s' : Watcher ω κ) : Prop where
  seen : s.seen = s'.seen
  next : s.registered = true → since s.first n = since s'.first n'

theorem Alike.own {n n' : Nat} {s s' : Watcher ω κ} (h : Alike n n' s s') (o : Own) : Alike n n' (s.own o) (s'.own o) := by
  obtain ⟨-, hr, hf, -⟩ := own_fields s o
  obtain ⟨-, hr', hf', -⟩ := own_fields s' o
  refine ⟨?_, fun hreg => ?_⟩
  · unfold Watcher.seen
    rw [hf, hf', own_renumber, own_renumber]
    exact congrArg (·.own o) h.seen
  · rw [hf, hf']
    exact h.next (hr.symm.trans hreg)

theorem Alike.registered {n n' : Nat} {s s' : Watcher ω κ} (h : Alike n n' s s') : s.registered = s'.registered := by
  have hseen := congrArg Watcher.registered h.seen
  exact hseen

theorem Alike.publish {n n' : Nat} {s s' : Watcher ω κ} (h : Alike n n' s s') (hr : s.registered = true) (op : ω) (k : κ)
    (between : List Own) : Alike (wrap (n + 1)) (wrap (n' + 1)) (s.publish n op k between) (s'.publish n' op k between) := by
  have hn := h.next hr
  refine ⟨?_, fun _ => ?_⟩
  · unfold Watcher.seen
    rw [publish_first, publish_first, publish_renumber, publish_renumber, hn]
    exact congrArg (fun t => Watcher.publish _ op k between t) h.seen
  · rw [publish_first, publish_first, since_next, since_next, hn]

/-- One step as subscriber `i` takes part in it: the others do nothing by themselves. -/
def alone (i : Nat) : Event ω χ → Option (Event ω χ)
  | .publish op change between => some (.publish op change fun j => if j = i then between j else [])
  | .own j o => if j = i then some (.own j o) else none
  | .wait j => if j = i then some (.wait j) else none
  | e => some e

structure Apart (i : Nat) (w w' : World ω κ) : Prop where
  handles : w.handles = w'.handles
  closed : w.closed = w'.closed
  length : w.watchers.length = w'.watchers.length
  alike : ∀ s s', w.watchers[i]? = some s → w'.watchers[i]? = some s' → Alike w.sequence w'.sequence s s'

theorem publish_unregistered {s : Watcher ω κ} (hr : s.registered = false) (n : Nat) (op : ω) (k : κ) (between : List Own) :
    s.publish n op k between = s := by
  unfold Watcher.publish
  rw [hr]
  rfl

theorem publish_getElem? (w : World ω κ) (op : ω) (k : κ) (between : Nat → List Own) (i : Nat) :
    (w.publish op k between).watchers[i]? = w.watchers[i]?.map fun s => s.publish w.sequence op k (between i) := by
  unfold World.publish
  split_ifs with hany
  · exact List.getElem?_mapIdx
  · cases hs : w.watchers[i]? with
    | none => rfl
    | some s =>
      have hr : s.registered = false := by
        by_contra hr
        exact hany (List.any_eq_true.2 ⟨s, List.mem_of_getElem? hs, by simpa using hr⟩)
      exact congrArg some (publish_unregistered hr _ _ _ _).symm

theorem publish_sequence {w : World ω κ} {i : Nat} {s : Watcher ω κ} (hs : w.watchers[i]? = some s) (hr : s.registered = true)
    (op : ω) (k : κ) (between : Nat → List Own) : (w.publish op k between).sequence = wrap (w.sequence + 1) := by
  unfold World.publish
  rw [if_pos (List.any_eq_true.2 ⟨s, List.mem_of_getElem? hs, hr⟩)]

theorem publish_frame (w : World ω κ) (op : ω) (k : κ) (between : Nat → List Own) :
    (w.publish op k between).handles = w.handles ∧ (w.publish op k between).closed = w.closed ∧
      (w.publish op k between).watchers.length = w.watchers.length := by
  unfold World.publish
  split_ifs
  · exact ⟨rfl, rfl, List.length_mapIdx⟩
  · exact ⟨rfl, rfl, rfl⟩

theorem Apart.publish {i : Nat} {w w' : World ω κ} (h : Apart i w w') (op : ω) (k : κ) {between between' : Nat → List Own}
    (hb : between i = between' i) : Apart i (w.publish op k between) (w'.publish op k between') := by
  obtain ⟨hh, hc, hl⟩ := publish_frame w op k between
  obtain ⟨hh', hc', hl'⟩ := publish_frame w' op k between'
  refine ⟨hh.trans (h.handles.trans hh'.symm), hc.trans (h.closed.trans hc'.symm), hl.trans (h.length.trans hl'.symm), ?_⟩
  intro t t' ht ht'
  rw [publish_getElem?] at ht ht'
  obtain ⟨s, hs, rfl⟩ := Option.map_eq_some_iff.1 ht
  obtain ⟨s', hs', rfl⟩ := Option.map_eq_some_iff.1 ht'
  have halike := h.alike s s' hs hs'
  cases hr : s.registered with
  | true =>
    rw [publish_sequence hs hr, publish_sequence hs' (halike.registered.symm.trans hr), hb]
    exact halike.publish hr op k _
  | false =>
    rw [publish_unregistered hr, publish_unregistered (halike.registered.symm.trans hr)]
    exact ⟨halike.seen, fun hreg => absurd (hr.symm.trans hreg) (by decide)⟩

theorem modify_getElem?_ne {i j : Nat} (hij : j ≠ i) (l : List (Watcher ω κ)) (f : Watcher ω κ → Watcher ω κ) :
    (l.modify j f)[i]? = l[i]? := by
  simp only [List.getElem?_modify, if_neg hij]
  cases l[i]? <;> rfl

theorem modify_getElem?_self (i : Nat) (l : List (Watcher ω κ)) (f : Watcher ω κ → Watcher ω κ) :
    (l.modify i f)[i]? = l[i]?.map f := by
  simp only [List.getElem?_modify, if_true]
  rfl

theorem Apart.modify {i : Nat} {w w' : World ω κ} (h : Apart i w w') (o : Own) :
    Apart i { w with watchers := w.watchers.modify i (·.own o) } { w' with watchers := w'.watchers.modify i (·.own o) } := by
  refine ⟨h.handles, h.closed, ?_, fun t t' ht ht' => ?_⟩
  · rw [List.length_modify, List.length_modify]
    exact h.length
  · rw [modify_getElem?_self] at ht ht'
    obtain ⟨s, hs, rfl⟩ := Option.map_eq_some_iff.1 ht
    obtain ⟨s', hs', rfl⟩ := Option.map_eq_some_iff.1 ht'
    exact (h.alike s s' hs hs').own o

theorem Apart.other {i j : Nat} {w w' : World ω κ} (h : Apart i w w') (hij : j ≠ i) (o : Own) :
    Apart i { w with watchers := w.watchers.modify j (·.own o) } w' := by
  refine ⟨h.handles, h.closed, ?_, fun t t' ht ht' => ?_⟩
  · rw [List.length_modify]
    exact h.length
  · rw [modify_getElem?_ne hij] at ht
    exact h.alike t t' ht ht'

theorem apart_step (project : χ → Option κ) {i : Nat} {w w' : World ω κ} (h : Apart i w w') (e : Event ω χ) :
    Apart i (step project w e) (run (step project) w' (alone i e).toList) := by
  cases e with
  | publish op change between =>
    show Apart i _ (step project w' (.publish op change fun j => if j = i then between j else []))
    unfold step
    dsimp only
    rw [← h.closed]
    split_ifs
    · exact h
    · cases project change with
      | none => exact h
      | some kind => exact h.publish op kind (if_pos rfl).symm
  | watch =>
    show Apart i _ (step project w' .watch)
    unfold step
    dsimp only
    rw [← h.handles]
    split_ifs
    · exact h
    · refine ⟨rfl, h.closed, ?_, fun t t' ht ht' => ?_⟩
      · rw [List.length_append, List.length_append]
        exact congrArg (· + 1) h.length
      · rcases Nat.lt_or_ge i w.watchers.length with hlt | hge
        · rw [List.getElem?_append_left hlt] at ht
          rw [List.getElem?_append_left (h.length ▸ hlt)] at ht'
          exact h.alike t t' ht ht'
        · rw [List.getElem?_append_right hge] at ht
          rw [List.getElem?_append_right (h.length ▸ hge), ← h.length] at ht'
          have ht := List.mem_singleton.1 (List.mem_of_getElem? ht)
          have ht' := List.mem_singleton.1 (List.mem_of_getElem? ht')
          rw [ht, ht']
          refine ⟨?_, fun _ => (since_self _).trans (since_self _).symm⟩
          show (⟨[], 0, true, true, since w.sequence w.sequence, []⟩ : Watcher ω κ) = ⟨[], 0, true, true, since w'.sequence w'.sequence, []⟩
          rw [since_self, since_self]
  | own j o =>
    show Apart i _ (run _ w' (if j = i then some (Event.own j o) else none).toList)
    split_ifs with hij
    · exact hij ▸ h.modify o
    · exact h.other hij o
  | wait j =>
    show Apart i _ (run _ w' (if j = i then some (Event.wait j) else none).toList)
    split_ifs with hij
    · exact hij ▸ h.modify .receive
    · exact h.other hij .receive
  | clone =>
    show Apart i _ (step project w' .clone)
    unfold step
    dsimp only
    rw [← h.handles]
    split_ifs
    · exact h
    · exact ⟨rfl, h.closed, h.length, h.alike⟩
  | close =>
    show Apart i _ (step project w' .close)
    unfold step
    dsimp only
    rw [← h.handles]
    split_ifs
    · exact h
    · exact ⟨rfl, rfl, h.length, h.alike⟩
  | dropHandle =>
    show Apart i _ (step project w' .dropHandle)
    unfold step
    dsimp only
    rw [← h.handles]
    split
    · exact h
    · refine ⟨rfl, rfl, ?_, fun t t' ht ht' => ?_⟩
      · rw [List.length_map, List.length_map]
        exact h.length
      · rw [List.getElem?_map] at ht ht'
        obtain ⟨s, hs, rfl⟩ := Option.map_eq_some_iff.1 ht
        obtain ⟨s', hs', rfl⟩ := Option.map_eq_some_iff.1 ht'
        exact ⟨congrArg (fun u : Watcher ω κ => { u with registered := false }) (h.alike s s' hs hs').seen, nofun⟩
    · exact ⟨rfl, h.closed, h.length, h.alike⟩

theorem apart_run (project : χ → Option κ) (i : Nat) {w w' : World ω κ} (h : Apart i w w') (evs : List (Event ω χ)) :
    Apart i (run (step project) w evs) (run (step project) w' (evs.filterMap (alone i))) := by
  induction evs generalizing w w' with
  | nil => exact h
  | cons e evs ih =>
    have hnext := ih (apart_step project h e)
    rw [← run_append] at hnext
    have hlist : (e :: evs).filterMap (alone i) = (alone i e).toList ++ evs.filterMap (alone i) := by
      rw [List.filterMap_cons]
      cases alone i e <;> rfl
    rw [run_cons, hlist]
    exact hnext

end Arveil.Progress
