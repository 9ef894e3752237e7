import Mathlib.Logic.Basic
import Mathlib.Data.List.Basic
import Arveil.Lib.Prog

/-! Runs of a deterministic system over a list of events. An event carries every
choice its environment makes, so a run is a fold. `Meets` says that each event
meets a condition in the state it is taken in, `Occurs` that some event does. -/

namespace Arveil.Trace

variable {σ ε : Type}

def run (step : σ → ε → σ) (s : σ) (evs : List ε) : σ := evs.foldl step s

@[simp] theorem run_nil (step : σ → ε → σ) (s : σ) : run step s [] = s := rfl

@[simp] theorem run_cons (step : σ → ε → σ) (s : σ) (e : ε) (evs : List ε) :
    run step s (e :: evs) = run step (step s e) evs := rfl

theorem run_append (step : σ → ε → σ) (s : σ) (evs evs' : List ε) :
    run step s (evs ++ evs') = run step (run step s evs) evs' := List.foldl_append

/-- Every event of the run meets `C` in the state it is taken in. -/
def Meets (step : σ → ε → σ) (C : σ → ε → Prop) : σ → List ε → Prop
  | _, [] => True
  | s, e :: evs => C s e ∧ Meets step C (step s e) evs

/-- Some event of the run satisfies `P` in the state it is taken in. -/
def Occurs (step : σ → ε → σ) (P : σ → ε → Prop) : σ → List ε → Prop
  | _, [] => False
  | s, e :: evs => P s e ∨ Occurs step P (step s e) evs

variable {step : σ → ε → σ} {C P : σ → ε → Prop}

/-- A condition that can be decided of each event can be decided of a run. -/
instance decidableMeets [∀ s e, Decidable (C s e)] : (s : σ) → (evs : List ε) → Decidable (Meets step C s evs)
  | _, [] => .isTrue trivial
  | s, e :: evs => @instDecidableAnd _ _ _ (decidableMeets (step s e) evs)

theorem meets_append {s : σ} {evs evs' : List ε} :
    Meets step C s (evs ++ evs') ↔ Meets step C s evs ∧ Meets step C (run step s evs) evs' := by
  induction evs generalizing s with
  | nil => simp [Meets]
  | cons e evs ih => simp only [List.cons_append, Meets, ih, run_cons, and_assoc]

theorem occurs_iff {s : σ} {evs : List ε} :
    Occurs step P s evs ↔ ∃ evs₁ e evs₂, evs = evs₁ ++ e :: evs₂ ∧ P (run step s evs₁) e := by
  induction evs generalizing s with
  | nil => simp [Occurs]
  | cons e evs ih =>
    simp only [Occurs, ih]
    constructor
    · rintro (h | ⟨evs₁, e', evs₂, rfl, h⟩)
      · exact ⟨[], e, evs, rfl, h⟩
      · exact ⟨e :: evs₁, e', evs₂, rfl, h⟩
    · rintro ⟨evs₁, e', evs₂, he, h⟩
      cases evs₁ with
      | nil =>
        obtain ⟨rfl, rfl⟩ := List.cons.inj he
        exact Or.inl h
      | cons e₁ evs₁ =>
        obtain ⟨rfl, rfl⟩ := List.cons.inj he
        exact Or.inr ⟨evs₁, e', evs₂, rfl, h⟩

theorem Occurs.mono {P' : σ → ε → Prop} {s : σ} {evs : List ε} (h : Occurs step P s evs)
    (hm : ∀ s e, P s e → P' s e) : Occurs step P' s evs := by
  rw [occurs_iff] at h ⊢
  obtain ⟨evs₁, e, evs₂, rfl, hp⟩ := h
  exact ⟨evs₁, e, evs₂, rfl, hm _ _ hp⟩

/-- The invariant rule: what holds at the start and is kept by every event that
meets `C` holds at the end of every run whose events meet `C`. -/
theorem invariant {I : σ → Prop} (hstep : ∀ s e, C s e → I s → I (step s e)) {s : σ} {evs : List ε}
    (hm : Meets step C s evs) (hi : I s) : I (run step s evs) := by
  induction evs generalizing s with
  | nil => exact hi
  | cons e evs ih => exact ih hm.2 (hstep s e hm.1 hi)

/-- The provenance rule: what holds at the end of a run held at its start or was
brought about by an event. -/
theorem provenance {Q : σ → Prop} {I : σ → Prop} (hi : ∀ s e, C s e → I s → I (step s e))
    (hstep : ∀ s e, C s e → I s → Q (step s e) → Q s ∨ P s e) {s : σ} {evs : List ε}
    (hm : Meets step C s evs) (hs : I s) (hq : Q (run step s evs)) : Q s ∨ Occurs step P s evs := by
  induction evs generalizing s with
  | nil => exact Or.inl hq
  | cons e evs ih =>
    rcases ih hm.2 (hi s e hm.1 hs) hq with h | h
    · exact (hstep s e hm.1 hs h).imp_right Or.inl
    · exact Or.inr (Or.inr h)

theorem meets_true (s : σ) (evs : List ε) : Meets step (fun _ _ => True) s evs := by
  induction evs generalizing s with
  | nil => trivial
  | cons e evs ih => exact ⟨trivial, ih _⟩

theorem Meets.and_mem {p : ε → Prop} {s : σ} {evs : List ε} (hm : Meets step C s evs) (hp : ∀ e ∈ evs, p e) :
    Meets step (fun s e => p e ∧ C s e) s evs := by
  induction evs generalizing s with
  | nil => trivial
  | cons e evs ih =>
    exact ⟨⟨hp e List.mem_cons_self, hm.1⟩, ih hm.2 fun e' he' => hp e' (List.mem_cons_of_mem _ he')⟩

theorem Meets.imp {D : σ → ε → Prop} (h : ∀ s e, C s e → D s e) {s : σ} {evs : List ε} (hc : Meets step C s evs) :
    Meets step D s evs := by
  induction evs generalizing s with
  | nil => trivial
  | cons e evs ih => exact ⟨h s e hc.1, ih hc.2⟩

theorem Meets.and {D : σ → ε → Prop} {s : σ} {evs : List ε} (hc : Meets step C s evs) (hd : Meets step D s evs) :
    Meets step (fun s e => C s e ∧ D s e) s evs := by
  induction evs generalizing s with
  | nil => trivial
  | cons e evs ih => exact ⟨⟨hc.1, hd.1⟩, ih hc.2 hd.2⟩

theorem Meets.congr {D E : σ → ε → Prop} (h : ∀ s e, C s e → (D s e ↔ E s e)) {s : σ} {evs : List ε}
    (hc : Meets step C s evs) : Meets step D s evs ↔ Meets step E s evs := by
  induction evs generalizing s with
  | nil => exact Iff.rfl
  | cons e evs ih => exact and_congr (h s e hc.1) (ih hc.2)

theorem Meets.with_invariant {I : σ → Prop} (hstep : ∀ s e, C s e → I s → I (step s e)) {s : σ} {evs : List ε}
    (hm : Meets step C s evs) (hi : I s) : Meets step (fun s e => C s e ∧ I s) s evs := by
  induction evs generalizing s with
  | nil => trivial
  | cons e evs ih => exact ⟨⟨hm.1, hi⟩, ih hm.2 (hstep s e hm.1 hi)⟩

theorem Meets.at {s : σ} {evs evs₁ evs₂ : List ε} {e : ε} (h : Meets step C s evs)
    (he : evs = evs₁ ++ e :: evs₂) : C (run step s evs₁) e := by
  subst he
  exact (meets_append.1 h).2.1

theorem meets_of_splits {s : σ} {evs : List ε} (h : ∀ evs₁ e evs₂, evs = evs₁ ++ e :: evs₂ → C (run step s evs₁) e) :
    Meets step C s evs := by
  induction evs generalizing s with
  | nil => trivial
  | cons e evs ih =>
    refine ⟨h [] e evs rfl, ih fun evs₁ e' evs₂ he => ?_⟩
    exact h (e :: evs₁) e' evs₂ (by rw [he, List.cons_append])

theorem split_last {p : ε → Prop} {evs evs₁ evs₂ : List ε} {e e' : ε} (h : evs ++ [e] = evs₁ ++ e' :: evs₂)
    (he : p e') (hevs : ∀ x ∈ evs, ¬ p x) : evs₁ = evs ∧ e' = e := by
  induction evs generalizing evs₁ with
  | nil =>
    cases evs₁ with
    | nil => exact ⟨rfl, (List.cons.inj h).1.symm⟩
    | cons a evs₁ => simp at h
  | cons x evs ih =>
    cases evs₁ with
    | nil => exact absurd ((List.cons.inj h).1 ▸ he) (hevs x List.mem_cons_self)
    | cons a evs₁ =>
      obtain ⟨rfl, hrest⟩ := List.cons.inj h
      obtain ⟨rfl, hlast⟩ := ih hrest fun y hy => hevs y (List.mem_cons_of_mem _ hy)
      exact ⟨rfl, hlast⟩

theorem forEach_ok_iff {σ ε β : Type} {f : β → Prog σ ε Unit} {bs : List β} {s : σ} :
    (∃ s', Prog.forEach bs f s = (.ok (), s')) ↔
      Meets (fun s b => (f b s).2) (fun s b => ∃ s', f b s = (.ok (), s')) s bs := by
  induction bs generalizing s with
  | nil => exact ⟨fun _ => trivial, fun _ => ⟨s, rfl⟩⟩
  | cons b bs ih =>
    simp only [Prog.forEach_cons, Meets]
    rcases hf : f b s with ⟨_ | _, s₁⟩
    · rw [Prog.bind_error hf]
      simp
    · rw [Prog.bind_ok hf, ih]
      simp

end Arveil.Trace
