import Mathlib.Data.List.Basic

/-! A list cut into pieces of one length, the last of which may be shorter. -/

namespace Arveil.Chunks

variable {α : Type}

def chunks (n : Nat) (xs : List α) : List (List α) :=
  if _h : 0 < xs.length ∧ 0 < n then xs.take n :: chunks n (xs.drop n) else []
termination_by xs.length
decreasing_by
  rw [List.length_drop]
  omega

theorem chunks_nil (n : Nat) : chunks n ([] : List α) = [] := by
  rw [chunks, dif_neg]
  exact fun h => absurd h.1 (Nat.lt_irrefl 0)

theorem chunks_of_pos {n : Nat} {xs : List α} (hn : 0 < n) (hxs : xs ≠ []) : chunks n xs = xs.take n :: chunks n (xs.drop n) := by
  rw [chunks, dif_pos ⟨List.length_pos_iff.2 hxs, hn⟩]

theorem chunks_induction {n : Nat} (hn : 0 < n) {motive : List α → Prop} (hnil : motive [])
    (hcons : ∀ xs, xs ≠ [] → motive (xs.drop n) → motive xs) (xs : List α) : motive xs := by
  induction hlen : xs.length using Nat.strongRecOn generalizing xs with
  | ind len ih =>
    by_cases hxs : xs = []
    · rw [hxs]
      exact hnil
    · refine hcons xs hxs (ih (xs.drop n).length ?_ _ rfl)
      have hpos := List.length_pos_iff.2 hxs
      rw [List.length_drop]
      omega

theorem chunks_ne_nil {n : Nat} {xs : List α} (hn : 0 < n) (hxs : xs ≠ []) : chunks n xs ≠ [] := by
  rw [chunks_of_pos hn hxs]
  exact List.cons_ne_nil _ _

theorem flatten_chunks {n : Nat} (hn : 0 < n) (xs : List α) : (chunks n xs).flatten = xs := by
  induction xs using chunks_induction hn with
  | hnil => rw [chunks_nil, List.flatten_nil]
  | hcons xs hxs ih => rw [chunks_of_pos hn hxs, List.flatten_cons, ih, List.take_append_drop]

theorem chunks_length_le {n : Nat} (hn : 0 < n) (xs : List α) : ∀ c ∈ chunks n xs, c.length ≤ n := by
  induction xs using chunks_induction hn with
  | hnil => simp [chunks_nil]
  | hcons xs hxs ih =>
    rw [chunks_of_pos hn hxs, List.forall_mem_cons]
    exact ⟨List.length_take_le n xs, ih⟩

end Arveil.Chunks
