import Mathlib.Logic.Relation

/-! Locks that are taken in an order. Whoever waits for a lock holds only locks below it, so
the parties that wait for one another form no cycle, and behind every party that waits
stands one that can go on. -/

namespace Arveil.LockOrder

variable {ι κ : Type}

/-- `i` waits for `j`: it wants a lock that `j` holds. -/
def WaitsFor (holds : ι → κ → Prop) (wants : ι → Option κ) (i j : ι) : Prop := ∃ l, wants i = some l ∧ holds j l

def Ascending (holds : ι → κ → Prop) (wants : ι → Option κ) (rank : κ → Nat) : Prop :=
  ∀ i l l', wants i = some l → holds i l' → rank l' < rank l

variable {holds : ι → κ → Prop} {wants : ι → Option κ} {rank : κ → Nat}

theorem chain_rises (h : Ascending holds wants rank) {i j k : ι} {l : κ} (hij : Relation.TransGen (WaitsFor holds wants) i j)
    (hl : wants i = some l) (hjk : WaitsFor holds wants j k) : ∃ l', wants j = some l' ∧ rank l < rank l' := by
  induction hij generalizing k with
  | single hij =>
    obtain ⟨m, hm, hholds⟩ := hij
    obtain ⟨l', hl', -⟩ := hjk
    obtain rfl : l = m := Option.some.inj (hl.symm.trans hm)
    exact ⟨l', hl', h _ l' l hl' hholds⟩
  | tail _ hbc ih =>
    obtain ⟨m, hm, hlt⟩ := ih hbc
    obtain ⟨m', hm', hholds⟩ := hbc
    obtain rfl : m = m' := Option.some.inj (hm.symm.trans hm')
    obtain ⟨l', hl', -⟩ := hjk
    exact ⟨l', hl', Nat.lt_trans hlt (h _ l' m hl' hholds)⟩

theorem acyclic (h : Ascending holds wants rank) (i : ι) : ¬ Relation.TransGen (WaitsFor holds wants) i i := by
  intro hcycle
  obtain ⟨j, hij, -⟩ := Relation.TransGen.head'_iff.1 hcycle
  obtain ⟨l, hl, -⟩ := id hij
  obtain ⟨l', hl', hlt⟩ := chain_rises h hcycle hl hij
  obtain rfl : l = l' := Option.some.inj (hl.symm.trans hl')
  exact absurd hlt (Nat.lt_irrefl _)

/-- Where the order is bounded, a lock somebody waits for leads to a party that waits for
nobody and holds a lock. -/
theorem exists_free (h : Ascending holds wants rank) {b : Nat} (hb : ∀ l, rank l ≤ b) {j : ι} {l : κ} (hj : holds j l) :
    ∃ k l', holds k l' ∧ ∀ j', ¬ WaitsFor holds wants k j' := by
  induction hn : b - rank l using Nat.strongRecOn generalizing j l with
  | _ n ih =>
    by_cases hw : ∃ j', WaitsFor holds wants j j'
    · obtain ⟨j', l', hl', hj'⟩ := hw
      have hlt := h j l' l hl' hj
      have hl := hb l'
      exact ih (b - rank l') (by omega) hj' rfl
    · exact ⟨j, l, hj, fun j' hj' => hw ⟨j', hj'⟩⟩

end Arveil.LockOrder
