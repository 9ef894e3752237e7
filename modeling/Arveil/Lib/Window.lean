import Mathlib.Data.List.Basic
import Mathlib.Order.Basic

/-! Sliding windows kept as the list of the times that were allowed. Old times are dropped by
filtering the list in place; what is left answers for every window that is still open. -/

namespace Arveil.Window

variable {α : Type}

def compactFrom (p : α → Bool) : Nat → Nat → Nat → List α → List α
  | 0, _, j, back => back.take j
  | n + 1, i, j, back =>
    match back[i]? with
    | some t => if p t then compactFrom p n (i + 1) (j + 1) (back.set j t) else compactFrom p n (i + 1) j back
    | none => back.take j

def compact (p : α → Bool) (xs : List α) : List α := compactFrom p xs.length 0 0 xs

theorem compactFrom_eq (p : α → Bool) {n i j : Nat} {back : List α} (hlen : back.length = i + n) (hj : j ≤ i) :
    compactFrom p n i j back = back.take j ++ (back.drop i).filter p := by
  induction n generalizing i j back with
  | zero => rw [compactFrom, List.drop_eq_nil_of_le (by omega), List.filter_nil, List.append_nil]
  | succ n ih =>
    have hi : i < back.length := by omega
    rw [compactFrom, List.getElem?_eq_getElem hi, List.drop_eq_getElem_cons hi]
    dsimp only
    by_cases hp : p back[i] = true
    · rw [if_pos hp, ih (by rw [List.length_set]; omega) (by omega), List.filter_cons_of_pos hp,
        List.drop_set_of_lt (by omega), List.take_add_one, List.getElem?_set_self (by omega), List.take_set_of_le (by omega),
        List.append_assoc]
      rfl
    · rw [if_neg hp, ih (by omega) (by omega), List.filter_cons_of_neg hp]

/-- Writing never overtakes reading. -/
theorem compact_eq_filter (p : α → Bool) (xs : List α) : compact p xs = xs.filter p :=
  compactFrom_eq p (Nat.zero_add _).symm (Nat.le_refl 0)

def after (cut : Int) (times : List Int) : List Int := times.filter fun t => decide (cut < t)

theorem after_append (cut : Int) (times times' : List Int) : after cut (times ++ times') = after cut times ++ after cut times' :=
  List.filter_append ..

theorem after_after {cut cut' : Int} (h : cut ≤ cut') (times : List Int) : after cut' (after cut times) = after cut' times := by
  rw [after, after, after, List.filter_filter]
  refine List.filter_congr fun t _ => ?_
  by_cases ht : cut' < t
  · simp [ht, Int.lt_of_le_of_lt h ht]
  · simp [ht]

/-- One question at `now`: answer and what is kept. -/
def allow (limit : Int) (width : Int) (times : List Int) (now : Int) : Bool × List Int :=
  let kept := compact (fun t => decide (now - width < t)) times
  if limit ≤ kept.length then (false, kept) else (true, kept ++ [now])

/-- What is kept answers for the log of all allowed times in every window open at `clock`. -/
structure Follows (width clock : Int) (log times : List Int) : Prop where
  recent : ∀ cut, clock - width ≤ cut → after cut times = after cut log
  past : ∀ t ∈ times, t ≤ clock
  sorted : times.Pairwise (· ≤ ·)

theorem follows_nil (width clock : Int) : Follows width clock [] [] := ⟨fun _ _ => rfl, nofun, List.Pairwise.nil⟩

theorem Follows.later {width clock now : Int} {log times : List Int} (h : Follows width clock log times) (hle : clock ≤ now) :
    Follows width now log times :=
  ⟨fun cut hcut => h.recent cut (by omega), fun t ht => Int.le_trans (h.past t ht) hle, h.sorted⟩

theorem allow_eq (limit width : Int) (times : List Int) (now : Int) :
    allow limit width times now =
      if limit ≤ (after (now - width) times).length then (false, after (now - width) times)
      else (true, after (now - width) times ++ [now]) := by
  rw [allow, compact_eq_filter]
  rfl

/-- A question is refused exactly where the window that ends at it is full. -/
theorem allow_spec {limit width clock now : Int} {log times : List Int} (h : Follows width clock log times) (hle : clock ≤ now) :
    ((allow limit width times now).1 = false ↔ limit ≤ (after (now - width) log).length) ∧
      Follows width now (if (allow limit width times now).1 then log ++ [now] else log) (allow limit width times now).2 := by
  have hkept := h.recent (now - width) (by omega)
  have hsorted : (after (now - width) log).Pairwise (· ≤ ·) := hkept ▸ h.sorted.filter _
  have hpast : ∀ t ∈ after (now - width) log, t ≤ now := fun t ht =>
    Int.le_trans (h.past t (List.mem_of_mem_filter (hkept ▸ ht))) hle
  have hanswer := allow_eq limit width times now
  rw [hkept] at hanswer
  by_cases hfull : limit ≤ (after (now - width) log).length
  · rw [hanswer, if_pos hfull]
    exact ⟨⟨fun _ => hfull, fun _ => rfl⟩, fun cut hcut => after_after hcut log, hpast, hsorted⟩
  · rw [hanswer, if_neg hfull]
    refine ⟨⟨nofun, fun hge => absurd hge hfull⟩, fun cut hcut => ?_, fun t ht => ?_, ?_⟩
    · show after cut (after (now - width) log ++ [now]) = after cut (log ++ [now])
      rw [after_append, after_append, after_after hcut]
    · rcases List.mem_append.1 ht with ht | ht
      · exact hpast t ht
      · exact Int.le_of_eq (List.mem_singleton.1 ht)
    · refine List.pairwise_append.2 ⟨hsorted, List.pairwise_singleton _ _, fun t ht s hs => ?_⟩
      exact List.mem_singleton.1 hs ▸ hpast t ht

theorem Follows.drop {width clock now : Int} {log times : List Int} (h : Follows width clock log times) (hle : clock ≤ now)
    (hlast : ∀ t, times.getLast? = some t → t ≤ now - width) : Follows width now log [] := by
  refine ⟨fun cut hcut => ?_, nofun, List.Pairwise.nil⟩
  rw [← h.recent cut (by omega)]
  refine (List.filter_eq_nil_iff.2 fun t ht hlt => ?_).symm
  have hlt : cut < t := of_decide_eq_true hlt
  have hend := List.getLast?_eq_some_getLast (List.ne_nil_of_mem ht)
  obtain ⟨init, hinit⟩ := List.getLast?_eq_some_iff.1 hend
  generalize times.getLast (List.ne_nil_of_mem ht) = last at hend hinit
  subst hinit
  have hmax := hlast last hend
  have htl : t ≤ last := by
    rcases List.mem_append.1 ht with ht | ht
    · exact (List.pairwise_append.1 h.sorted).2.2 t ht last (List.mem_singleton_self last)
    · exact Int.le_of_eq (List.mem_singleton.1 ht)
  omega

/-- Times of which no window holds more than `limit`. A window is a set of times less than
`width` apart. -/
def Sparse (limit width : Int) (log : List Int) : Prop :=
  ∀ q : Int → Bool, (∀ s t, q s = true → q t = true → t - width < s) → ((log.filter q).length : Int) ≤ limit

theorem sparse_nil {limit : Int} (width : Int) (h : 0 ≤ limit) : Sparse limit width [] := fun _ _ => by simpa using h

theorem Sparse.snoc {limit width now : Int} {log : List Int} (h : Sparse limit width log)
    (hroom : ((after (now - width) log).length : Int) < limit) : Sparse limit width (log ++ [now]) := by
  intro q hq
  rw [List.filter_append, List.length_append]
  by_cases hnow : q now = true
  · have hsub : (log.filter q).length ≤ (after (now - width) log).length := by
      refine (List.monotone_filter_right log fun s hs => ?_).length_le
      exact decide_eq_true (hq s now hs hnow)
    have hone : ([now].filter q).length = 1 := by rw [List.filter_cons_of_pos hnow]; rfl
    omega
  · have hzero : ([now].filter q).length = 0 := by rw [List.filter_cons_of_neg hnow]; rfl
    have := h q hq
    omega

theorem Sparse.window {limit width : Int} {log : List Int} (h : Sparse limit width log) (c : Int) :
    ((log.filter fun t => decide (c < t) && decide (t ≤ c + width)).length : Int) ≤ limit ∧
      ((log.filter fun t => decide (c ≤ t) && decide (t < c + width)).length : Int) ≤ limit := by
  refine ⟨h _ fun s t hs ht => ?_, h _ fun s t hs ht => ?_⟩
  · simp only [Bool.and_eq_true, decide_eq_true_eq] at hs ht
    omega
  · simp only [Bool.and_eq_true, decide_eq_true_eq] at hs ht
    omega

end Arveil.Window
