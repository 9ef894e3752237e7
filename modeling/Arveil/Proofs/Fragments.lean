import Arveil.Spec.Fragments

/-! Both sides cut a frame into the same fragments, and a reassembler that is pushed the
fragments of frames hands these frames back. -/

namespace Arveil.Fragments

open Chunks (chunks)

theorem fragmentData_pos : 0 < fragmentData := by decide

/-- Pieces with their flags: only the last is marked. -/
def marked : List Bytes → List Bytes
  | [] => []
  | [c] => [flagLast :: c]
  | c :: c' :: cs => (0 :: c) :: marked (c' :: cs)

theorem mapIdx_marked (cs : List Bytes) : (cs.mapIdx fun i c => (if i = cs.length - 1 then flagLast else 0) :: c) = marked cs := by
  induction cs with
  | nil => rfl
  | cons c cs ih =>
    cases cs with
    | nil => rfl
    | cons c' cs =>
      rw [List.mapIdx_cons, marked, ← ih]
      refine congrArg₂ List.cons rfl (List.ext_getElem (by simp) fun i hi hi' => ?_)
      have hlast : i + 1 = (c :: c' :: cs).length - 1 ↔ i = (c' :: cs).length - 1 := by
        simp only [List.length_cons]
        omega
      simp only [List.getElem_mapIdx, hlast]

def pieces (bytes : Bytes) : List Bytes := if bytes.isEmpty then [[]] else chunks fragmentData bytes

theorem fragments_eq (bytes : Bytes) : fragments bytes = marked (pieces bytes) := mapIdx_marked (pieces bytes)

theorem pieces_ne_nil (bytes : Bytes) : pieces bytes ≠ [] := by
  unfold pieces
  split
  · exact List.cons_ne_nil _ _
  · rename_i h
    exact Chunks.chunks_ne_nil fragmentData_pos fun hnil => h (by rw [hnil]; rfl)

theorem flatten_pieces (bytes : Bytes) : (pieces bytes).flatten = bytes := by
  unfold pieces
  split
  · rename_i h
    rw [List.isEmpty_iff.1 h]
    rfl
  · exact Chunks.flatten_chunks fragmentData_pos bytes

theorem pieces_length_le (bytes : Bytes) : ∀ c ∈ pieces bytes, c.length ≤ fragmentData := by
  unfold pieces
  split
  · simp
  · exact Chunks.chunks_length_le fragmentData_pos bytes

theorem marked_length_le {n : Nat} {cs : List Bytes} (h : ∀ c ∈ cs, c.length ≤ n) : ∀ m ∈ marked cs, m.length ≤ n + 1 := by
  induction cs using marked.induct with
  | case1 => simp [marked]
  | case2 c => simpa [marked] using h
  | case3 c c' cs ih =>
    rw [marked, List.forall_mem_cons]
    exact ⟨Nat.succ_le_succ (h c (List.mem_cons_self ..)), ih fun d hd => h d (List.mem_cons_of_mem _ hd)⟩

theorem fragments_fit (bytes : Bytes) : ∀ m ∈ fragments bytes, m.length ≤ maxNoisePayload := by
  rw [fragments_eq]
  exact marked_length_le (pieces_length_le bytes)

theorem fragmentLoop_eq (b : Bytes) : RelayFragments.fragmentLoop b = marked (chunks fragmentData b) := by
  induction b using Chunks.chunks_induction fragmentData_pos with
  | hnil => rw [RelayFragments.fragmentLoop, Chunks.chunks_nil]; rfl
  | hcons b hb ih =>
    have hmin : b.drop (min b.length RelayFragments.fragmentData) = b.drop fragmentData ∧
        b.take (min b.length RelayFragments.fragmentData) = b.take fragmentData := by
      rcases le_total b.length fragmentData with hle | hle
      · rw [show RelayFragments.fragmentData = fragmentData from rfl, min_eq_left hle, List.drop_of_length_le (le_refl _),
          List.drop_of_length_le hle, List.take_of_length_le (le_refl _), List.take_of_length_le hle]
        exact ⟨rfl, rfl⟩
      · rw [show RelayFragments.fragmentData = fragmentData from rfl, min_eq_right hle]
        exact ⟨rfl, rfl⟩
    rw [RelayFragments.fragmentLoop, dif_pos (List.length_pos_iff.2 hb)]
    dsimp only
    rw [hmin.1, hmin.2, ih, Chunks.chunks_of_pos fragmentData_pos hb]
    by_cases hrest : b.drop fragmentData = []
    · rw [hrest, Chunks.chunks_nil]
      rfl
    · have hlength : ¬ (b.drop fragmentData).length = 0 := fun h => hrest (List.length_eq_zero_iff.1 h)
      rw [if_neg hlength, Chunks.chunks_of_pos fragmentData_pos hrest]
      rfl

theorem relay_fragments (b : Bytes) : RelayFragments.fragments b = fragments b := by
  rw [fragments_eq, RelayFragments.fragments, pieces]
  cases b with
  | nil => rfl
  | cons x xs => exact fragmentLoop_eq (x :: xs)

variable {r : Reassembler}

theorem push_more {data : Bytes} (h : r.buffer.length + data.length ≤ r.limit) :
    r.push (0 :: data) = (.ok none, { r with buffer := r.buffer ++ data }) := by
  have hflags : ¬ ((0 : UInt8) &&& ~~~flagLast ≠ 0) := by decide
  have hlast : ¬ ((0 : UInt8) &&& flagLast ≠ 0) := by decide
  rw [Reassembler.push, if_neg hflags, if_neg (not_lt.2 h), if_neg hlast]

theorem push_last {data : Bytes} (h : r.buffer.length + data.length ≤ r.limit) :
    r.push (flagLast :: data) = (.ok (some (r.buffer ++ data)), { r with buffer := [] }) := by
  have hflags : ¬ (flagLast &&& ~~~flagLast ≠ 0) := by decide
  have hlast : flagLast &&& flagLast ≠ 0 := by decide
  rw [Reassembler.push, if_neg hflags, if_neg (not_lt.2 h), if_pos hlast]

theorem pushAll_append (r : Reassembler) (stream stream' : List Bytes) :
    r.pushAll (stream ++ stream') =
      ((r.pushAll stream).1 ++ ((r.pushAll stream).2.pushAll stream').1, ((r.pushAll stream).2.pushAll stream').2) := by
  induction stream generalizing r with
  | nil => rfl
  | cons fragment stream ih =>
    show ((r.push fragment).1 :: ((r.push fragment).2.pushAll (stream ++ stream')).1, ((r.push fragment).2.pushAll (stream ++ stream')).2) = _
    rw [ih]
    rfl

/-- What the pieces of one frame are answered: nothing until the last. -/
def answersTo (cs : List Bytes) (frame : Bytes) : List (Except FragmentError (Option Bytes)) :=
  List.replicate (cs.length - 1) (.ok none) ++ [.ok (some frame)]

theorem pushAll_marked {cs : List Bytes} (hcs : cs ≠ []) (h : r.buffer.length + cs.flatten.length ≤ r.limit) :
    r.pushAll (marked cs) = (answersTo cs (r.buffer ++ cs.flatten), { r with buffer := [] }) := by
  induction cs using marked.induct generalizing r with
  | case1 => exact absurd rfl hcs
  | case2 c =>
    rw [List.flatten_singleton] at h ⊢
    rw [marked, Reassembler.pushAll, push_last h]
    rfl
  | case3 c c' cs ih =>
    rw [List.flatten_cons, List.length_append] at h
    have hrest : (r.buffer ++ c).length + (c' :: cs).flatten.length ≤ r.limit := by
      rw [List.length_append]
      omega
    rw [marked, Reassembler.pushAll, push_more (by omega)]
    dsimp only
    rw [ih (r := { r with buffer := r.buffer ++ c }) (List.cons_ne_nil _ _) hrest]
    dsimp only
    rw [List.append_assoc, ← List.flatten_cons]
    rfl

theorem pushAll_fragments {limit : Nat} {frame : Bytes} (h : frame.length ≤ limit) :
    (Reassembler.new limit).pushAll (fragments frame) = (answersTo (pieces frame) frame, Reassembler.new limit) := by
  have hfit : (Reassembler.new limit).buffer.length + (pieces frame).flatten.length ≤ (Reassembler.new limit).limit := by
    rw [flatten_pieces]
    simpa [Reassembler.new] using h
  rw [fragments_eq, pushAll_marked (pieces_ne_nil frame) hfit, flatten_pieces]
  rfl

theorem pushAll_frames {limit : Nat} {frames : List Bytes} (h : ∀ frame ∈ frames, frame.length ≤ limit) :
    (Reassembler.new limit).pushAll (frames.flatMap fragments) =
      (frames.flatMap fun frame => answersTo (pieces frame) frame, Reassembler.new limit) := by
  induction frames with
  | nil => rfl
  | cons frame frames ih =>
    rw [List.forall_mem_cons] at h
    rw [List.flatMap_cons, pushAll_append, pushAll_fragments h.1]
    dsimp only
    rw [ih h.2, List.flatMap_cons]

def yielded (answers : List (Except FragmentError (Option Bytes))) : List Bytes :=
  answers.filterMap fun answer => match answer with
    | .ok frame => frame
    | .error _ => none

theorem yielded_answersTo (cs : List Bytes) (frame : Bytes) : yielded (answersTo cs frame) = [frame] := by
  have hnone : ∀ n, yielded (List.replicate n (.ok none)) = [] := by
    intro n
    induction n with
    | zero => rfl
    | succ n ih => exact ih
  rw [answersTo, yielded, List.filterMap_append]
  exact congrArg (· ++ [frame]) (hnone _)

theorem yielded_frames (frames : List Bytes) : yielded (frames.flatMap fun frame => answersTo (pieces frame) frame) = frames := by
  induction frames with
  | nil => rfl
  | cons frame frames ih =>
    rw [List.flatMap_cons, yielded, List.filterMap_append]
    exact (congrArg₂ (· ++ ·) (yielded_answersTo _ frame) ih).trans rfl

theorem ok_frames (frames : List Bytes) :
    ∀ answer ∈ frames.flatMap fun frame => answersTo (pieces frame) frame, ∃ frame, answer = .ok frame := by
  intro answer h
  obtain ⟨frame, -, h⟩ := List.mem_flatMap.1 h
  rcases List.mem_append.1 h with h | h
  · exact ⟨none, List.eq_of_mem_replicate h⟩
  · exact ⟨some frame, List.mem_singleton.1 h⟩

theorem push_within (h : r.buffer.length ≤ r.limit) (fragment : Bytes) :
    (r.push fragment).2.buffer.length ≤ (r.push fragment).2.limit ∧ (r.push fragment).2.limit = r.limit := by
  cases fragment with
  | nil => exact ⟨h, rfl⟩
  | cons flags data =>
    rw [Reassembler.push]
    split_ifs with hflags hlarge hlast
    · exact ⟨h, rfl⟩
    · exact ⟨Nat.zero_le _, rfl⟩
    · exact ⟨Nat.zero_le _, rfl⟩
    · refine ⟨?_, rfl⟩
      rw [List.length_append]
      exact not_lt.1 hlarge

theorem pushAll_within (h : r.buffer.length ≤ r.limit) (stream : List Bytes) : (r.pushAll stream).2.buffer.length ≤ r.limit := by
  induction stream generalizing r with
  | nil => exact h
  | cons fragment stream ih =>
    obtain ⟨hwithin, hlimit⟩ := push_within h fragment
    rw [← hlimit]
    exact ih hwithin

/-- The relay's reassembler takes every fragment as the core's does. -/
theorem push_same (r : Reassembler) (fragment : Bytes) :
    (RelayFragments.Reassembler.of r).push fragment = (.of (r.push fragment).1, .of (r.push fragment).2) := by
  cases fragment with
  | nil => rfl
  | cons flags data =>
    show (if flags &&& ~~~flagLast ≠ 0 then _ else if r.limit < r.buffer.length + data.length then _
      else if flags &&& flagLast = 0 then _ else _) = _
    rw [Reassembler.push]
    by_cases hflags : flags &&& ~~~flagLast ≠ 0
    · rw [if_pos hflags, if_pos hflags]
      rfl
    rw [if_neg hflags, if_neg hflags]
    by_cases hlarge : r.limit < r.buffer.length + data.length
    · rw [if_pos hlarge, if_pos hlarge]
      rfl
    rw [if_neg hlarge, if_neg hlarge]
    by_cases hlast : flags &&& flagLast = 0
    · rw [if_pos hlast, if_neg (not_not.2 hlast)]
      rfl
    · rw [if_neg hlast, if_pos hlast]
      rfl

theorem pushAll_same (r : Reassembler) (stream : List Bytes) :
    (RelayFragments.Reassembler.of r).pushAll stream = ((r.pushAll stream).1.map .of, .of (r.pushAll stream).2) := by
  induction stream generalizing r with
  | nil => rfl
  | cons fragment stream ih =>
    rw [RelayFragments.Reassembler.pushAll, push_same]
    dsimp only
    rw [ih]
    rfl

theorem midFrame_same (r : Reassembler) : (RelayFragments.Reassembler.of r).midFrame = r.isMidFrame := by
  obtain ⟨limit, buffer⟩ := r
  cases buffer <;> rfl

theorem relay_frames (frames : List Bytes) : frames.flatMap RelayFragments.fragments = frames.flatMap fragments :=
  congrArg frames.flatMap (funext relay_fragments)

/-- Frames survive the channel, both sides cut alike into pieces that fit, and no stream takes the two
reassemblers apart or their buffer over the limit. -/
theorem channel_fragments (limit : Nat) :
    (∀ frames : List Bytes, (∀ frame ∈ frames, frame.length ≤ limit) →
      let (answers, r) := (Reassembler.new limit).pushAll (frames.flatMap fragments)
      yielded answers = frames ∧ (∀ answer ∈ answers, ∃ frame, answer = .ok frame) ∧ r.isMidFrame = false ∧
        (RelayFragments.newReassembler limit).pushAll (frames.flatMap RelayFragments.fragments) = (answers.map .of, .of r)) ∧
    (∀ b, RelayFragments.fragments b = fragments b ∧ ∀ m ∈ fragments b, m.length ≤ maxNoisePayload) ∧
    ∀ stream,
      let (answers, r) := (Reassembler.new limit).pushAll stream
      (RelayFragments.newReassembler limit).pushAll stream = (answers.map .of, .of r) ∧
        (RelayFragments.Reassembler.of r).midFrame = r.isMidFrame ∧ r.buffer.length ≤ limit := by
  refine ⟨fun frames h => ?_, fun b => ⟨relay_fragments b, fragments_fit b⟩, fun stream => ?_⟩
  · have hsame := pushAll_same (Reassembler.new limit) (frames.flatMap fragments)
    rw [pushAll_frames h] at hsame ⊢
    rw [relay_frames]
    exact ⟨yielded_frames frames, ok_frames frames, rfl, hsame⟩
  · have hfresh : (Reassembler.new limit).buffer.length ≤ (Reassembler.new limit).limit := Nat.zero_le limit
    exact ⟨pushAll_same (Reassembler.new limit) stream, midFrame_same _, pushAll_within hfresh stream⟩

theorem two_frames_survive :
    let (answers, r) := (Reassembler.new 3).pushAll ([[], [1, 2, 3]].flatMap fragments)
    yielded answers = [[], [1, 2, 3]] ∧ (∀ answer ∈ answers, ∃ frame, answer = .ok frame) ∧ r.isMidFrame = false ∧
      (RelayFragments.newReassembler 3).pushAll ([[], [1, 2, 3]].flatMap RelayFragments.fragments) = (answers.map .of, .of r) :=
  (channel_fragments 3).1 [[], [1, 2, 3]] (by decide)

end Arveil.Fragments
