import Mathlib.Logic.Basic

/-! Programs over a mutable state that may fail. What a program wrote before it
failed stays written, unless it ran inside `unitOfWork`, which restores the state
it started from. -/

namespace Arveil

/-- A program over a state `σ` that fails with `ε`. -/
def Prog (σ ε α : Type) : Type := σ → Except ε α × σ

namespace Prog

variable {σ τ ε ε' α β : Type}

instance : Monad (Prog σ ε) where
  pure a := fun s => (.ok a, s)
  bind x f := fun s =>
    match x s with
    | (.ok a, s') => f a s'
    | (.error e, s') => (.error e, s')

def fail (e : ε) : Prog σ ε α := fun s => (.error e, s)

def read (f : σ → α) : Prog σ ε α := fun s => (.ok (f s), s)

def modify (f : σ → σ) : Prog σ ε Unit := fun s => (.ok (), f s)

def ofExcept : Except ε α → Prog σ ε α
  | .ok a => fun s => (.ok a, s)
  | .error e => fun s => (.error e, s)

/-- `x.ok_or(e)?` -/
def ofOption (e : ε) : Option α → Prog σ ε α
  | some a => fun s => (.ok a, s)
  | none => fun s => (.error e, s)

/-- Replace the table or value that `f` computes, or fail where `f` does. -/
def tryModify (f : σ → Except ε σ) : Prog σ ε Unit := fun s =>
  match f s with
  | .ok s' => (.ok (), s')
  | .error e => (.error e, s)

def mapError (f : ε → ε') (p : Prog σ ε α) : Prog σ ε' α := fun s =>
  match p s with
  | (.ok a, s') => (.ok a, s')
  | (.error e, s') => (.error (f e), s')

/-- Run a program on a part of a larger state. -/
def zoom (get : τ → σ) (put : σ → τ → τ) (p : Prog σ ε α) : Prog τ ε α := fun t =>
  match p (get t) with
  | (r, s') => (r, put s' t)

/-- The outcome of `p` as a value; its failure does not stop the caller. -/
def attempt (p : Prog σ ε α) : Prog σ ε' (Except ε α) := fun s =>
  match p s with
  | (r, s') => (.ok r, s')

/-- Commit if `p` returns `ok`, roll back otherwise. -/
def unitOfWork (p : Prog σ ε α) : Prog σ ε α := fun s =>
  match p s with
  | (.ok a, s') => (.ok a, s')
  | (.error e, _) => (.error e, s)

def when (c : Prop) [Decidable c] (p : Prog σ ε Unit) : Prog σ ε Unit := if c then p else pure ()

/-- One pass over a list, stopping at the first failure. -/
def forEach : List β → (β → Prog σ ε Unit) → Prog σ ε Unit
  | [], _ => pure ()
  | b :: bs, f => do
      f b
      forEach bs f

@[simp] theorem pure_run (a : α) (s : σ) : (pure a : Prog σ ε α) s = (.ok a, s) := rfl

theorem bind_run (x : Prog σ ε α) (f : α → Prog σ ε β) (s : σ) :
    (x >>= f) s = match x s with
      | (.ok a, s') => f a s'
      | (.error e, s') => (.error e, s') := rfl

@[simp] theorem fail_run (e : ε) (s : σ) : (fail e : Prog σ ε α) s = (.error e, s) := rfl

@[simp] theorem read_run (f : σ → α) (s : σ) : (read f : Prog σ ε α) s = (.ok (f s), s) := rfl

@[simp] theorem modify_run (f : σ → σ) (s : σ) : (modify f : Prog σ ε Unit) s = (.ok (), f s) := rfl

@[simp] theorem ofExcept_ok (a : α) (s : σ) : (ofExcept (.ok a) : Prog σ ε α) s = (.ok a, s) := rfl

@[simp] theorem ofExcept_error (e : ε) (s : σ) : (ofExcept (.error e) : Prog σ ε α) s = (.error e, s) := rfl

@[simp] theorem ofOption_some (e : ε) (a : α) (s : σ) : ofOption e (some a) s = (.ok a, s) := rfl

@[simp] theorem ofOption_none (e : ε) (s : σ) : (ofOption e none : Prog σ ε α) s = (.error e, s) := rfl

theorem when_pos {c : Prop} [Decidable c] {p : Prog σ ε Unit} (h : c) : when c p = p := if_pos h

theorem when_neg {c : Prop} [Decidable c] {p : Prog σ ε Unit} (h : ¬ c) : when c p = pure () := if_neg h

@[simp] theorem forEach_nil (f : β → Prog σ ε Unit) : forEach [] f = pure () := rfl

@[simp] theorem forEach_cons (b : β) (bs : List β) (f : β → Prog σ ε Unit) :
    forEach (b :: bs) f = (f b >>= fun _ => forEach bs f) := rfl

theorem forEach_append (bs bs' : List β) (f : β → Prog σ ε Unit) :
    forEach (bs ++ bs') f = (forEach bs f >>= fun _ => forEach bs' f) := by
  induction bs with
  | nil => rfl
  | cons b bs ih =>
    funext s
    simp only [List.cons_append, forEach_cons, bind_run, ih]
    rcases f b s with ⟨_ | _, s'⟩ <;> rfl

theorem forEach_map {γ : Type} (g : γ → β) (cs : List γ) (f : β → Prog σ ε Unit) :
    forEach (cs.map g) f = forEach cs fun c => f (g c) := by
  induction cs with
  | nil => rfl
  | cons c cs ih => simp only [List.map_cons, forEach_cons, ih]

theorem bind_ok {x : Prog σ ε α} {f : α → Prog σ ε β} {s s' : σ} {a : α} (h : x s = (.ok a, s')) :
    (x >>= f) s = f a s' := by
  rw [bind_run, h]

theorem bind_error {x : Prog σ ε α} {f : α → Prog σ ε β} {s s' : σ} {e : ε} (h : x s = (.error e, s')) :
    (x >>= f) s = (.error e, s') := by
  rw [bind_run, h]

theorem bind_eq_ok {x : Prog σ ε α} {f : α → Prog σ ε β} {s s' : σ} {b : β} :
    (x >>= f) s = (.ok b, s') ↔ ∃ a s₁, x s = (.ok a, s₁) ∧ f a s₁ = (.ok b, s') := by
  rw [bind_run]
  rcases hx : x s with ⟨r, s₁⟩
  cases r with
  | ok a =>
    constructor
    · intro h; exact ⟨a, s₁, rfl, h⟩
    · rintro ⟨a', s₂, h, hf⟩
      obtain ⟨h1, rfl⟩ := Prod.mk.inj h
      obtain rfl := Except.ok.inj h1
      exact hf
  | error e =>
    constructor
    · intro h; exact absurd (Prod.mk.inj h).1 (by simp)
    · rintro ⟨a', s₂, h, -⟩
      exact absurd (Prod.mk.inj h).1 (by simp)

theorem bind_cases (x : Prog σ ε α) (f : α → Prog σ ε β) (s : σ) :
    (∃ e s', x s = (.error e, s') ∧ (x >>= f) s = (.error e, s')) ∨
      ∃ a s', x s = (.ok a, s') ∧ (x >>= f) s = f a s' := by
  rcases hx : x s with ⟨r, s'⟩
  cases r with
  | error e => exact Or.inl ⟨e, s', rfl, bind_error hx⟩
  | ok a => exact Or.inr ⟨a, s', rfl, bind_ok hx⟩

theorem read_eq_ok {f : σ → α} {s s' : σ} {a : α} :
    (read f : Prog σ ε α) s = (.ok a, s') ↔ f s = a ∧ s = s' := by simp

theorem modify_eq_ok {f : σ → σ} {s s' : σ} {u : Unit} :
    (modify f : Prog σ ε Unit) s = (.ok u, s') ↔ f s = s' := by simp

theorem ofExcept_eq_ok {r : Except ε α} {s s' : σ} {a : α} :
    (ofExcept r : Prog σ ε α) s = (.ok a, s') ↔ r = .ok a ∧ s = s' := by
  cases r <;> simp

theorem ofOption_eq_ok {e : ε} {o : Option α} {s s' : σ} {a : α} :
    ofOption e o s = (.ok a, s') ↔ o = some a ∧ s = s' := by
  cases o <;> simp

theorem tryModify_eq_ok {f : σ → Except ε σ} {s s' : σ} {u : Unit} :
    tryModify f s = (.ok u, s') ↔ f s = .ok s' := by
  unfold tryModify
  cases f s <;> simp

theorem mapError_eq_ok {f : ε → ε'} {p : Prog σ ε α} {s s' : σ} {a : α} :
    mapError f p s = (.ok a, s') ↔ p s = (.ok a, s') := by
  unfold mapError
  rcases p s with ⟨r, s₁⟩
  cases r <;> simp

@[simp] theorem mapError_snd (f : ε → ε') (p : Prog σ ε α) (s : σ) : (mapError f p s).2 = (p s).2 := by
  unfold mapError
  rcases p s with ⟨r, s₁⟩
  cases r <;> rfl

theorem bind_pure_snd (p : Prog σ ε α) (f : α → β) (s : σ) :
    ((p >>= fun a => (pure (f a) : Prog σ ε β)) s).2 = (p s).2 := by
  rw [bind_run]
  rcases p s with ⟨r, s₁⟩
  cases r <;> rfl

theorem bind_snd {P : σ → Prop} {x : Prog σ ε α} {f : α → Prog σ ε β} {s : σ}
    (hx : ∀ e s', x s = (.error e, s') → P s') (hf : ∀ a s', x s = (.ok a, s') → P (f a s').2) :
    P ((x >>= f) s).2 := by
  rcases bind_cases x f s with ⟨e, s', h, he⟩ | ⟨a, s', h, he⟩
  · rw [he]
    exact hx e s' h
  · rw [he]
    exact hf a s' h

theorem zoom_eq_ok {get : τ → σ} {put : σ → τ → τ} {p : Prog σ ε α} {t t' : τ} {a : α} :
    zoom get put p t = (.ok a, t') ↔ ∃ s', p (get t) = (.ok a, s') ∧ put s' t = t' := by
  unfold zoom
  rcases p (get t) with ⟨r, s₁⟩
  cases r <;> simp [and_assoc]

theorem unitOfWork_eq_ok {p : Prog σ ε α} {s s' : σ} {a : α} :
    unitOfWork p s = (.ok a, s') ↔ p s = (.ok a, s') := by
  unfold unitOfWork
  rcases p s with ⟨r, s₁⟩
  cases r <;> simp

theorem unitOfWork_error {p : Prog σ ε α} {s s' : σ} {e : ε} (h : unitOfWork p s = (.error e, s')) :
    s' = s := by
  unfold unitOfWork at h
  rcases hp : p s with ⟨r, s₁⟩
  rw [hp] at h
  cases r <;> simp_all

theorem unitOfWork_snd {P : σ → Prop} {p : Prog σ ε α} {s : σ} (hs : P s) (hp : P (p s).2) :
    P (unitOfWork p s).2 := by
  unfold unitOfWork
  rcases hrun : p s with ⟨r, s'⟩
  rw [hrun] at hp
  cases r with
  | ok a => exact hp
  | error e => exact hs

theorem when_eq_ok {c : Prop} [Decidable c] {p : Prog σ ε Unit} {s s' : σ} {u : Unit} :
    when c p s = (.ok u, s') ↔ (c ∧ p s = (.ok u, s')) ∨ (¬ c ∧ s = s') := by
  unfold when
  split
  · next h => simp [h]
  · next h => simp [h]

theorem fail_ne_ok {e : ε} {s s' : σ} {a : α} : (fail e : Prog σ ε α) s ≠ (.ok a, s') := by
  simp

/-- Every failure of `p` is one of `P`. -/
def FailsOnly (P : ε → Prop) (p : Prog σ ε α) : Prop := ∀ s e s', p s = (.error e, s') → P e

section fails

variable {P : ε → Prop}

theorem failsOnly_read (f : σ → α) : FailsOnly P (read f : Prog σ ε α) := fun s e s' h => by simp at h

theorem failsOnly_modify (f : σ → σ) : FailsOnly P (modify f : Prog σ ε Unit) := fun s e s' h => by simp at h

theorem failsOnly_ofOption {e : ε} (he : P e) (o : Option α) : FailsOnly P (ofOption e o : Prog σ ε α) := by
  intro s e' s' h
  cases o with
  | some a => simp at h
  | none =>
    obtain ⟨rfl, -⟩ : e = e' ∧ s = s' := by simpa using h
    exact he

theorem failsOnly_bind {x : Prog σ ε α} {f : α → Prog σ ε β} (hx : FailsOnly P x) (hf : ∀ a, FailsOnly P (f a)) :
    FailsOnly P (x >>= f) := by
  intro s e s' h
  rcases bind_cases x f s with ⟨e', s₁, hxs, hr⟩ | ⟨a, s₁, hxs, hr⟩
  · rw [hr] at h
    obtain ⟨he, -⟩ := Prod.mk.inj h
    exact Except.error.inj he ▸ hx s e' s₁ hxs
  · rw [hr] at h
    exact hf a s₁ e s' h

end fails

theorem unitOfWork_eq_error {p : Prog σ ε α} {s s' : σ} {e : ε} (h : unitOfWork p s = (.error e, s')) :
    ∃ s₁, p s = (.error e, s₁) := by
  unfold unitOfWork at h
  rcases hp : p s with ⟨r, s₁⟩
  rw [hp] at h
  cases r with
  | ok a => simp at h
  | error e' =>
    obtain ⟨rfl, -⟩ : e' = e ∧ s = s' := by simpa using h
    exact ⟨s₁, rfl⟩

/-- Every outcome of `p`, a failed one too, is related by `R` to the state it started from. -/
def Keeps (R : σ → σ → Prop) (p : Prog σ ε α) : Prop := ∀ s, R s (p s).2

section keeps

variable {R : σ → σ → Prop}

theorem keeps_pure (hr : ∀ s, R s s) (a : α) : Keeps R (pure a : Prog σ ε α) := fun s => hr s

theorem keeps_fail (hr : ∀ s, R s s) (e : ε) : Keeps R (fail e : Prog σ ε α) := fun s => hr s

theorem keeps_read (hr : ∀ s, R s s) (f : σ → α) : Keeps R (read f : Prog σ ε α) := fun s => hr s

theorem keeps_modify {f : σ → σ} (h : ∀ s, R s (f s)) : Keeps R (modify f : Prog σ ε Unit) := h

theorem keeps_ofExcept (hr : ∀ s, R s s) (r : Except ε α) : Keeps R (ofExcept r : Prog σ ε α) := by
  intro s
  cases r <;> exact hr s

theorem keeps_ofOption (hr : ∀ s, R s s) (e : ε) (o : Option α) : Keeps R (ofOption e o : Prog σ ε α) := by
  intro s
  cases o <;> exact hr s

theorem keeps_tryModify (hr : ∀ s, R s s) {f : σ → Except ε σ} (h : ∀ s s', f s = .ok s' → R s s') :
    Keeps R (tryModify f) := by
  intro s
  unfold tryModify
  cases hf : f s with
  | ok s' => exact h s s' hf
  | error e => exact hr s

theorem keeps_bind (ht : ∀ a b c, R a b → R b c → R a c) {x : Prog σ ε α} {f : α → Prog σ ε β}
    (hx : Keeps R x) (hf : ∀ a, Keeps R (f a)) : Keeps R (x >>= f) := by
  intro s
  rw [bind_run]
  have h1 := hx s
  rcases hxs : x s with ⟨r, s₁⟩
  rw [hxs] at h1
  cases r with
  | ok a => exact ht _ _ _ h1 (hf a s₁)
  | error e => exact h1

theorem keeps_when (hr : ∀ s, R s s) (c : Prop) [Decidable c] {p : Prog σ ε Unit} (h : Keeps R p) :
    Keeps R (when c p) := by
  unfold when
  split
  · exact h
  · exact keeps_pure hr ()

theorem keeps_mapError {p : Prog σ ε α} (f : ε → ε') (h : Keeps R p) : Keeps R (mapError f p) := by
  intro s
  have h1 := h s
  unfold mapError
  rcases hp : p s with ⟨r, s₁⟩
  rw [hp] at h1
  cases r <;> exact h1

theorem keeps_attempt {p : Prog σ ε α} (h : Keeps R p) :
    Keeps R (attempt p : Prog σ ε' (Except ε α)) := h

theorem keeps_unitOfWork (hr : ∀ s, R s s) {p : Prog σ ε α} (h : Keeps R p) : Keeps R (unitOfWork p) := by
  intro s
  have h1 := h s
  unfold unitOfWork
  rcases hp : p s with ⟨r, s₁⟩
  rw [hp] at h1
  cases r with
  | ok a => exact h1
  | error e => exact hr s

theorem keeps_forEach (hr : ∀ s, R s s) (ht : ∀ a b c, R a b → R b c → R a c)
    (bs : List β) {f : β → Prog σ ε Unit} (h : ∀ b ∈ bs, Keeps R (f b)) : Keeps R (forEach bs f) := by
  induction bs with
  | nil => exact keeps_pure hr ()
  | cons b bs ih =>
    exact keeps_bind ht (h b List.mem_cons_self) fun _ => ih fun b' hb' => h b' (List.mem_cons_of_mem b hb')

theorem Keeps.mono {R' : σ → σ → Prop} {p : Prog σ ε α} (h : Keeps R p) (hm : ∀ s s', R s s' → R' s s') :
    Keeps R' p := fun s => hm s _ (h s)

end keeps

section fixes

variable {γ : Type} {f : σ → γ}

/-- Two states with the same view. -/
def Same (f : σ → γ) (s s' : σ) : Prop := f s' = f s

theorem same_refl (s : σ) : Same f s s := rfl

theorem same_trans (s s' s'' : σ) (h : Same f s s') (h' : Same f s' s'') : Same f s s'' := h'.trans h

/-- Whatever its outcome, `p` leaves the view `f` of the state as it was. -/
def Fixes (f : σ → γ) (p : Prog σ ε α) : Prop := Keeps (Same f) p

theorem fixes_pure (a : α) : Fixes f (pure a : Prog σ ε α) := keeps_pure same_refl a

theorem fixes_fail (e : ε) : Fixes f (fail e : Prog σ ε α) := keeps_fail same_refl e

theorem fixes_read (g : σ → α) : Fixes f (read g : Prog σ ε α) := keeps_read same_refl g

theorem fixes_modify {g : σ → σ} (h : ∀ s, f (g s) = f s) : Fixes f (modify g : Prog σ ε Unit) := keeps_modify h

theorem fixes_ofExcept (r : Except ε α) : Fixes f (ofExcept r : Prog σ ε α) := keeps_ofExcept same_refl r

theorem fixes_ofOption (e : ε) (o : Option α) : Fixes f (ofOption e o : Prog σ ε α) :=
  keeps_ofOption same_refl e o

theorem fixes_tryModify {g : σ → Except ε σ} (h : ∀ s s', g s = .ok s' → f s' = f s) : Fixes f (tryModify g) :=
  keeps_tryModify same_refl h

theorem fixes_bind {x : Prog σ ε α} {g : α → Prog σ ε β} (hx : Fixes f x) (hg : ∀ a, Fixes f (g a)) :
    Fixes f (x >>= g) := keeps_bind same_trans hx hg

theorem fixes_when (c : Prop) [Decidable c] {p : Prog σ ε Unit} (h : Fixes f p) : Fixes f (when c p) :=
  keeps_when same_refl c h

theorem fixes_mapError {p : Prog σ ε α} (g : ε → ε') (h : Fixes f p) : Fixes f (mapError g p) := keeps_mapError g h

theorem fixes_attempt {p : Prog σ ε α} (h : Fixes f p) : Fixes f (attempt p : Prog σ ε' (Except ε α)) :=
  keeps_attempt h

theorem fixes_unitOfWork {p : Prog σ ε α} (h : Fixes f p) : Fixes f (unitOfWork p) :=
  keeps_unitOfWork same_refl h

theorem fixes_forEach (bs : List β) {g : β → Prog σ ε Unit} (h : ∀ b ∈ bs, Fixes f (g b)) : Fixes f (forEach bs g) :=
  keeps_forEach same_refl same_trans bs h

theorem ends_unchanged {p : Prog σ ε α} (h : Fixes id p) {s s' : σ} {r : Except ε α} (hp : p s = (r, s')) : s' = s := by
  have hs := h s
  rw [hp] at hs
  exact hs

theorem bind_fixed {P : σ → Prop} {x : Prog σ ε α} {g : α → Prog σ ε β} {s : σ} (hx : Fixes id x) (hs : P s)
    (hg : ∀ a, x s = (.ok a, s) → P (g a s).2) : P ((x >>= g) s).2 := by
  refine bind_snd (fun e s' he => ?_) fun a s' ha => ?_
  · rw [ends_unchanged hx he]
    exact hs
  · obtain rfl := ends_unchanged hx ha
    exact hg a ha

theorem Fixes.map {δ : Type} {p : Prog σ ε α} (h : Fixes f p) (g : γ → δ) : Fixes (fun s => g (f s)) p :=
  fun s => congrArg g (h s)

end fixes

end Prog

end Arveil
