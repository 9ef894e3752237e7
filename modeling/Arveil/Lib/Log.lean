import Mathlib.Logic.Basic
import Mathlib.Data.List.Basic

/-! Logs that only grow at their end. `Followed` says that every entry of one kind has one of
another kind after it, `Since` that nothing came between an entry and the end of the log. -/

namespace Arveil.Log

variable {ε : Type}

/-- Every entry that meets `P`, given what stands before it, has one that meets `Q` after it. -/
def Followed (P : List ε → ε → Prop) (Q : ε → Prop) (log : List ε) : Prop :=
  ∀ before e after, log = before ++ e :: after → P before e → ∃ e' ∈ after, Q e'

variable {P : List ε → ε → Prop} {Q R : ε → Prop} {log : List ε}

theorem split_append {before after : List ε} {e e' : ε} (h : log ++ [e] = before ++ e' :: after) :
    (before = log ∧ e' = e ∧ after = []) ∨ ∃ rest, log = before ++ e' :: rest ∧ after = rest ++ [e] := by
  rcases List.eq_nil_or_concat after with rfl | ⟨rest, x, rfl⟩
  · obtain ⟨hlog, he⟩ := List.append_inj' h rfl
    exact Or.inl ⟨hlog.symm, (List.cons.inj he).1.symm, rfl⟩
  · rw [List.concat_eq_append, ← List.cons_append, ← List.append_assoc] at h
    obtain ⟨hlog, he⟩ := List.append_inj' h rfl
    refine Or.inr ⟨rest, hlog, ?_⟩
    rw [List.concat_eq_append, (List.cons.inj he).1]

theorem followed_nil : Followed P Q [] := by
  intro before e after h
  exact absurd h (List.append_ne_nil_of_right_ne_nil _ (List.cons_ne_nil e after)).symm

theorem Followed.append {e : ε} (h : Followed P Q log) (he : ¬ P log e) : Followed P Q (log ++ [e]) := by
  intro before e' after hlog hp
  rcases split_append hlog with ⟨rfl, rfl, -⟩ | ⟨rest, hrest, rfl⟩
  · exact absurd hp he
  · obtain ⟨x, hx, hq⟩ := h before e' rest hrest hp
    exact ⟨x, List.mem_append_left _ hx, hq⟩

theorem Followed.append_all {es : List ε} (h : Followed P Q log) (he : ∀ e ∈ es, ∀ before, ¬ P before e) :
    Followed P Q (log ++ es) := by
  induction es generalizing log with
  | nil => rwa [List.append_nil]
  | cons e es ih =>
    rw [List.append_cons]
    exact ih (h.append (he e List.mem_cons_self log)) fun e' he' => he e' (List.mem_cons_of_mem _ he')

theorem Followed.answer {e : ε} (hq : Q e) (he : ¬ P log e) : Followed P Q (log ++ [e]) := by
  intro before e' after hlog hp
  rcases split_append hlog with ⟨rfl, rfl, -⟩ | ⟨rest, -, rfl⟩
  · exact absurd hp he
  · exact ⟨e, List.mem_append_right _ List.mem_cons_self, hq⟩

theorem followed_of_none (h : ∀ before e after, log = before ++ e :: after → ¬ P before e) : Followed P Q log :=
  fun before e after hlog hp => absurd hp (h before e after hlog)

/-- The log ends in `x` and entries that meet `R`; before `x` it meets `P`. -/
def Since (P : List ε → Prop) (x : ε) (R : ε → Prop) (log : List ε) : Prop :=
  ∃ before after, log = before ++ x :: after ∧ P before ∧ ∀ e ∈ after, R e

theorem since_last {P : List ε → Prop} {x : ε} (h : P log) : Since P x R (log ++ [x]) :=
  ⟨log, [], rfl, h, fun _ he => absurd he List.not_mem_nil⟩

theorem Since.append_all {P : List ε → Prop} {x : ε} {es : List ε} (h : Since P x R log) (he : ∀ e ∈ es, R e) :
    Since P x R (log ++ es) := by
  obtain ⟨before, after, rfl, hp, hr⟩ := h
  refine ⟨before, after ++ es, by rw [List.append_assoc, List.cons_append], hp, fun e' he' => ?_⟩
  exact (List.mem_append.1 he').elim (hr e') (he e')

theorem Since.append {P : List ε → Prop} {x e : ε} (h : Since P x R log) (he : R e) : Since P x R (log ++ [e]) :=
  h.append_all fun _ he' => List.mem_singleton.1 he' ▸ he

/-- Each entry that meets `Q` stands where the log before it meets `P`. -/
def Preceded (P : List ε → ε → Prop) (Q : ε → Prop) (log : List ε) : Prop :=
  ∀ before e after, log = before ++ e :: after → Q e → P before e

theorem Preceded.append {e : ε} (h : Preceded P Q log) (he : Q e → P log e) : Preceded P Q (log ++ [e]) := by
  intro before e' after hlog hq
  rcases split_append hlog with ⟨rfl, rfl, -⟩ | ⟨rest, hrest, -⟩
  · exact he hq
  · exact h before e' rest hrest hq

theorem Preceded.append_all {es : List ε} (h : Preceded P Q log) (he : ∀ e ∈ es, ¬ Q e) : Preceded P Q (log ++ es) := by
  induction es generalizing log with
  | nil => rwa [List.append_nil]
  | cons e es ih =>
    rw [List.append_cons]
    exact ih (h.append fun hq => absurd hq (he e List.mem_cons_self)) fun e' he' => he e' (List.mem_cons_of_mem _ he')

end Arveil.Log
