import Mathlib.Data.List.Basic
import Mathlib.Order.Basic

/-! Reading a growing list page by page from its newest row on. A page reads some of the rows
below a cursor and says where it stopped; following the pages reads every row once. -/

namespace Arveil.Paging

variable {ρ ε : Type} (key : ρ → Int)

def below (before : Option Int) (rows : List ρ) : List ρ := rows.filter fun r => before.all fun b => decide (key r < b)

structure Page (ρ : Type) where
  items : List ρ
  next : Option Int

def stop (before : Option Int) (read : List ρ) : Option Int := (read.getLast?.map key).or before

/-- A page shows what it looks for among the rows it read, and names the last of them unless
it read them all. -/
def Covers (p : ρ → Bool) (rows : List ρ) (page : Page ρ) : Prop :=
  ∃ read rest, rows = read ++ rest ∧ page.items = read.filter p ∧
    (page.next = none ∧ rest = [] ∨ ∃ last, read.getLast? = some last ∧ page.next = some (key last))

def Descending (rows : List ρ) : Prop := rows.Pairwise fun a b => key b < key a

/-- Follow `next` from page to page; `none` where `fuel` pages are not enough. -/
def follow (page : Nat → Option Int → Except ε (Page ρ)) : Nat → Nat → Option Int → Option (Except ε (List (Page ρ)))
  | 0, _, _ => none
  | fuel + 1, k, before =>
    match page k before with
    | .error e => some (.error e)
    | .ok p =>
      match p.next with
      | none => some (.ok [p])
      | some c => (follow page fuel (k + 1) (some c)).map fun r => r.map (p :: ·)

variable {key} {p : ρ → Bool}

theorem mem_below {before : Option Int} {rows : List ρ} {r : ρ} :
    r ∈ below key before rows ↔ r ∈ rows ∧ ∀ b, before = some b → key r < b := by
  rw [below, List.mem_filter]
  cases before <;> simp

theorem below_none (rows : List ρ) : below key none rows = rows := List.filter_eq_self.2 fun _ _ => rfl

theorem below_append (before : Option Int) (rows rows' : List ρ) :
    below key before (rows ++ rows') = below key before rows ++ below key before rows' := List.filter_append ..

theorem below_stop {before : Option Int} {rows read rest : List ρ} (hdesc : Descending key rows)
    (h : below key before rows = read ++ rest) : below key (stop key before read) rows = rest := by
  cases hlast : read.getLast? with
  | none =>
    rw [List.getLast?_eq_none_iff.1 hlast, List.nil_append] at h
    rw [stop, hlast]
    exact h
  | some last =>
    obtain ⟨init, rfl⟩ := List.getLast?_eq_some_iff.1 hlast
    have hsub : Descending key ((init ++ [last]) ++ rest) := h ▸ hdesc.filter _
    obtain ⟨hread, -, hcross⟩ := List.pairwise_append.1 hsub
    have hinit := (List.pairwise_append.1 hread).2.2
    have hlow : ∀ b, before = some b → key last < b :=
      (mem_below.1 (h ▸ List.mem_append_left rest (List.mem_append_right init (List.mem_singleton_self last)))).2
    have hcomp : below key (some (key last)) rows = below key (some (key last)) (below key before rows) := by
      unfold below
      rw [List.filter_filter]
      refine List.filter_congr fun r _ => ?_
      cases before with
      | none => simp
      | some b =>
        have := hlow b rfl
        simp only [Option.all_some]
        by_cases hr : key r < key last
        · simp [hr, Int.lt_trans hr this]
        · simp [hr]
    rw [stop, hlast]
    show below key (some (key last)) rows = rest
    rw [hcomp, h, below_append]
    have hnone : below key (some (key last)) (init ++ [last]) = [] := by
      refine List.filter_eq_nil_iff.2 fun r hr hlt => ?_
      have hlt : key r < key last := by simpa using hlt
      rcases List.mem_append.1 hr with hr | hr
      · exact absurd hlt (Int.lt_asymm (hinit r hr last (List.mem_singleton_self last)))
      · exact absurd (List.mem_singleton.1 hr ▸ hlt) (Int.lt_irrefl _)
    have hall : below key (some (key last)) rest = rest := by
      refine List.filter_eq_self.2 fun r hr => ?_
      simpa using hcross last (List.mem_append_right init (List.mem_singleton_self last)) r hr
    rw [hnone, hall, List.nil_append]

theorem below_grown {rows new : List ρ} {last : ρ} (hdesc : Descending key (new ++ rows)) (hlast : last ∈ rows) :
    below key (some (key last)) (new ++ rows) = below key (some (key last)) rows := by
  rw [below_append]
  have hnone : below key (some (key last)) new = [] := by
    refine List.filter_eq_nil_iff.2 fun r hr hlt => ?_
    have hlt : key r < key last := by simpa using hlt
    exact absurd hlt (Int.lt_asymm ((List.pairwise_append.1 hdesc).2.2 r hr last hlast))
  rw [hnone, List.nil_append]

/-- Following the pages of a list that grows at its top. -/
theorem follow_exact {rows : Nat → List ρ} {page : Nat → Option Int → Except ε (Page ρ)}
    (hgrow : ∀ k, ∃ new, rows (k + 1) = new ++ rows k) (hdesc : ∀ k, Descending key (rows k))
    (hpage : ∀ k before q, page k before = .ok q → Covers key p (below key before (rows k)) q) {fuel k : Nat}
    {before : Option Int} (hfuel : (below key before (rows k)).length < fuel) :
    ∃ r, follow page fuel k before = some r ∧
      ∀ pages, r = .ok pages → pages.flatMap (·.items) = (below key before (rows k)).filter p := by
  induction fuel generalizing k before with
  | zero => exact absurd hfuel (Nat.not_lt_zero _)
  | succ fuel ih =>
    unfold follow
    cases hq : page k before with
    | error e => exact ⟨_, rfl, nofun⟩
    | ok q =>
      obtain ⟨read, rest, hrows, hitems, hnext⟩ := hpage k before q hq
      dsimp only
      rcases hnext with ⟨hnext, rfl⟩ | ⟨last, hlast, hnext⟩
      · rw [hnext]
        refine ⟨_, rfl, fun pages hpages => ?_⟩
        obtain rfl := Except.ok.inj hpages
        rw [hrows, List.append_nil, List.flatMap_singleton]
        exact hitems
      · rw [hnext]
        have hread : last ∈ read := List.mem_of_getLast? hlast
        have hmem : last ∈ rows k := (mem_below.1 (hrows ▸ List.mem_append_left rest hread)).1
        obtain ⟨new, hnew⟩ := hgrow k
        have hrest : below key (some (key last)) (rows (k + 1)) = rest := by
          have hstop := below_stop (hdesc k) hrows
          rw [stop, hlast] at hstop
          rw [hnew, below_grown (hnew ▸ hdesc (k + 1)) hmem]
          exact hstop
        have hlength := List.length_pos_of_mem hread
        rw [hrows, List.length_append] at hfuel
        obtain ⟨r, hr, hflat⟩ := @ih (k + 1) (some (key last)) (by rw [hrest]; omega)
        refine ⟨r.map (q :: ·), congrArg (Option.map _) hr, fun pages hpages => ?_⟩
        cases r with
        | error e => cases hpages
        | ok pages' =>
          obtain rfl := Except.ok.inj hpages
          rw [List.flatMap_cons, hflat pages' rfl, hrest, hitems, hrows, List.filter_append]

/-- The pages are whole: following them from the top ends, shows each row there was that is
looked for once and newest first, and a page without a successor shows all that is left. A
page fails only for a bad row among those it looks for in the stretch it may read. -/
structure Whole (key : ρ → Int) (p : ρ → Bool) (good : Nat → ρ → Prop) (stretch : Nat → Nat) (rows : Nat → List ρ)
    (page : Nat → Option Int → Except ε (Page ρ)) : Prop where
  follows : ∃ r, follow page ((rows 0).length + 1) 0 none = some r ∧ ∀ pages, r = .ok pages →
    pages.flatMap (·.items) = (rows 0).filter p ∧ Descending key (pages.flatMap (·.items))
  last : ∀ k before q, page k before = .ok q → q.next = none → q.items = (below key before (rows k)).filter p
  answers : ∀ k before, (∀ r ∈ (below key before (rows k)).take (stretch k), p r → good k r) → ∃ q, page k before = .ok q

theorem whole_of_covers {good : Nat → ρ → Prop} {stretch : Nat → Nat} {rows : Nat → List ρ}
    {page : Nat → Option Int → Except ε (Page ρ)} (hgrow : ∀ k, ∃ new, rows (k + 1) = new ++ rows k)
    (hdesc : ∀ k, Descending key (rows k))
    (hpage : ∀ k before q, page k before = .ok q → Covers key p (below key before (rows k)) q)
    (hgood : ∀ k before, (∀ r ∈ (below key before (rows k)).take (stretch k), p r → good k r) → ∃ q, page k before = .ok q) :
    Whole key p good stretch rows page where
  follows := by
    have hfuel : (below key none (rows 0)).length < (rows 0).length + 1 := by rw [below_none]; exact Nat.lt_succ_self _
    obtain ⟨r, hr, hflat⟩ := follow_exact hgrow hdesc hpage hfuel
    refine ⟨r, hr, fun pages hpages => ?_⟩
    have hitems := hflat pages hpages
    rw [below_none] at hitems
    refine ⟨hitems, ?_⟩
    rw [hitems]
    exact (hdesc 0).filter p
  last := by
    intro k before q hq hnone
    obtain ⟨read, rest, hrows, hitems, hnext | ⟨last, -, hnext⟩⟩ := hpage k before q hq
    · rw [hrows, hnext.2, List.append_nil]
      exact hitems
    · rw [hnone] at hnext
      cases hnext
  answers := hgood

end Arveil.Paging
