import Arveil.Lib.Trace

/-! Commands on a cooperative executor. A command keeps the thread until it waits, and
whatever the others did meanwhile lies between two of its stretches. `Wp` follows a
command from one wait to the next: `R` relates the state a stretch began in to the state
it is left in, and nothing else about the state survives a wait. -/

namespace Arveil

/-- A command over a shared state: programs on the state, and waits. -/
inductive Task (σ ε α : Type) where
  | done (r : Except ε α)
  | step (f : σ → σ) (k : σ → Task σ ε α)
  | await (k : Task σ ε α)

namespace Task

variable {σ ε α β : Type}

def bind : Task σ ε α → (α → Task σ ε β) → Task σ ε β
  | .done (.ok a), g => g a
  | .done (.error e), _ => .done (.error e)
  | .step f k, g => .step f fun s => (k s).bind g
  | .await k, g => .await (k.bind g)

instance : Monad (Task σ ε) where
  pure a := .done (.ok a)
  bind := Task.bind

/-- A program that does not wait. -/
def call (p : Prog σ ε α) : Task σ ε α := .step (fun s => (p s).2) fun s => .done (p s).1

def wait (r : Except ε α) : Task σ ε α := .await (.done r)

def waits : List (Except ε Unit) → Task σ ε Unit
  | [] => pure ()
  | r :: rs => do
      wait r
      waits rs

def forEach : List β → (β → Task σ ε Unit) → Task σ ε Unit
  | [], _ => pure ()
  | b :: bs, f => do
      f b
      forEach bs f

def go : Task σ ε α → σ → Task σ ε α × σ
  | .done r, s => (.done r, s)
  | .step f k, s => go (k s) (f s)
  | .await k, s => (k, s)

def finished : Task σ ε α → Bool
  | .done _ => true
  | _ => false

variable {R : σ → σ → Prop}

/-- The stretch began in `s₀` and stands in `s`; it ends in `Q`, and in `R` at every wait. -/
def Wp (R : σ → σ → Prop) : Task σ ε α → (Except ε α → σ → σ → Prop) → σ → σ → Prop
  | .done r, Q, s₀, s => Q r s₀ s
  | .step f k, Q, s₀, s => Wp R (k s) Q s₀ (f s)
  | .await k, Q, s₀, s => R s₀ s ∧ ∀ s', Wp R k Q s' s'

/-- Every stretch of the command keeps `R`, whatever it finds when it goes on. -/
def Sound (R : σ → σ → Prop) (t : Task σ ε α) : Prop := ∀ s, Wp R t (fun _ => R) s s

theorem wp_mono {t : Task σ ε α} {Q Q' : Except ε α → σ → σ → Prop} (hq : ∀ r s₀ s, Q r s₀ s → Q' r s₀ s) :
    ∀ {s₀ s : σ}, Wp R t Q s₀ s → Wp R t Q' s₀ s := by
  induction t with
  | done r => exact fun h => hq r _ _ h
  | step f k ih => exact fun h => ih _ h
  | await k ih => exact fun h => ⟨h.1, fun s' => ih (h.2 s')⟩

theorem wp_bind {t : Task σ ε α} {g : α → Task σ ε β} {Q : Except ε β → σ → σ → Prop} :
    ∀ {s₀ s : σ}, Wp R t (fun r s₀ s => match r with
      | .ok a => Wp R (g a) Q s₀ s
      | .error e => Q (.error e) s₀ s) s₀ s → Wp R (t >>= g) Q s₀ s := by
  induction t with
  | done r =>
    intro s₀ s h
    cases r with
    | ok a => exact h
    | error e => exact h
  | step f k ih => exact fun h => ih _ h
  | await k ih => exact fun h => ⟨h.1, fun s' => ih (h.2 s')⟩

theorem wp_call {p : Prog σ ε α} {Q : Except ε α → σ → σ → Prop} {s₀ s : σ} (h : Q (p s).1 s₀ (p s).2) :
    Wp R (call p) Q s₀ s := h

theorem wp_call_bind {p : Prog σ ε α} {g : α → Task σ ε β} {Q : Except ε β → σ → σ → Prop} {s₀ s : σ}
    (herror : ∀ e s', p s = (.error e, s') → Q (.error e) s₀ s')
    (hok : ∀ a s', p s = (.ok a, s') → Wp R (g a) Q s₀ s') : Wp R (call p >>= g) Q s₀ s := by
  refine wp_bind (wp_call ?_)
  rcases hp : p s with ⟨e | a, s'⟩
  · exact herror e s' hp
  · exact hok a s' hp

theorem wp_call_fixed {p : Prog σ ε α} (hp : Prog.Fixes id p) {g : α → Task σ ε β} {s₀ s : σ} (hs : R s₀ s)
    (hok : ∀ a, p s = (.ok a, s) → Wp R (g a) (fun _ => R) s₀ s) : Wp R (call p >>= g) (fun _ => R) s₀ s := by
  refine wp_call_bind (fun e s' he => ?_) fun a s' ha => ?_
  · rw [Prog.ends_unchanged hp he]
    exact hs
  · obtain rfl := Prog.ends_unchanged hp ha
    exact hok a ha

theorem sound_pure (hr : ∀ s, R s s) (a : α) : Sound R (pure a : Task σ ε α) := fun s => hr s

theorem sound_wait (hr : ∀ s, R s s) (r : Except ε α) : Sound R (wait r : Task σ ε α) := fun s => ⟨hr s, fun s' => hr s'⟩

theorem sound_call {p : Prog σ ε α} (h : Prog.Keeps R p) : Sound R (call p) := fun s => wp_call (h s)

theorem wp_sound (ht : ∀ a b c, R a b → R b c → R a c) {t : Task σ ε α} (h : Sound R t) {s₀ s : σ} (hs : R s₀ s) :
    Wp R t (fun _ => R) s₀ s := by
  have hgen : ∀ (t : Task σ ε α) (s₁ s : σ), R s₀ s₁ → Wp R t (fun _ => R) s₁ s → Wp R t (fun _ => R) s₀ s := by
    intro t
    induction t with
    | done r => exact fun s₁ s h₁ h => ht _ _ _ h₁ h
    | step f k ih => exact fun s₁ s h₁ h => ih _ _ _ h₁ h
    | await k ih => exact fun s₁ s h₁ h => ⟨ht _ _ _ h₁ h.1, h.2⟩
  exact hgen t s s hs (h s)

theorem wp_call_sound (ht : ∀ a b c, R a b → R b c → R a c) {p : Prog σ ε α} {g : α → Task σ ε β} {s₀ s : σ}
    (hs : R s₀ (p s).2) (hg : ∀ a, Sound R (g a)) : Wp R (call p >>= g) (fun _ => R) s₀ s := by
  refine wp_call_bind (fun e s' he => ?_) fun a s' ha => wp_sound ht (hg a) ?_
  · rw [he] at hs
    exact hs
  · rw [ha] at hs
    exact hs

theorem sound_bind (ht : ∀ a b c, R a b → R b c → R a c) {t : Task σ ε α} {g : α → Task σ ε β} (h : Sound R t)
    (hg : ∀ a, Sound R (g a)) : Sound R (t >>= g) := by
  refine fun s => wp_bind (wp_mono (fun r s₀ s hr => ?_) (h s))
  cases r with
  | ok a => exact wp_sound ht (hg a) hr
  | error e => exact hr

theorem sound_waits (hr : ∀ s, R s s) (ht : ∀ a b c, R a b → R b c → R a c) (rs : List (Except ε Unit)) :
    Sound R (waits rs : Task σ ε Unit) := by
  induction rs with
  | nil => exact sound_pure hr ()
  | cons r rs ih => exact sound_bind ht (sound_wait hr r) fun _ => ih

theorem sound_forEach (hr : ∀ s, R s s) (ht : ∀ a b c, R a b → R b c → R a c) {bs : List β} {f : β → Task σ ε Unit}
    (h : ∀ b, Sound R (f b)) : Sound R (forEach bs f) := by
  induction bs with
  | nil => exact sound_pure hr ()
  | cons b bs ih => exact sound_bind ht (h b) fun _ => ih

theorem go_sound {t : Task σ ε α} {s : σ} (h : Sound R t) (hr : ∀ s, R s s) :
    R s (go t s).2 ∧ Sound R (go t s).1 := by
  have hgen : ∀ (t : Task σ ε α) (s₀ s : σ), Wp R t (fun _ => R) s₀ s → R s₀ (go t s).2 ∧ Sound R (go t s).1 := by
    intro t
    induction t with
    | done r => exact fun s₀ s h => ⟨h, fun s => hr s⟩
    | step f k ih => exact fun s₀ s h => ih _ _ _ h
    | await k ih => exact fun s₀ s h => ⟨h.1, h.2⟩
  exact hgen t s s (h s)

end Task

/-- A command under way: the locks it still has to take, those it holds, what is left of it. -/
structure Job (σ ε κ : Type) where
  waiting : List κ
  held : List κ
  task : Task σ ε Unit

/-- The commands of one executor and the state they share. -/
structure Pool (σ ε κ : Type) where
  state : σ
  jobs : List (Job σ ε κ)

namespace Pool

variable {σ ε κ : Type}

def submit (p : Pool σ ε κ) (locks : List κ) (t : Task σ ε Unit) : Pool σ ε κ :=
  { p with jobs := p.jobs ++ [⟨locks, [], t⟩] }

/-- Poll a command: it takes its next lock if nobody holds it, or runs to its next wait. -/
def poll [DecidableEq κ] (p : Pool σ ε κ) (i : Nat) : Pool σ ε κ :=
  match p.jobs[i]? with
  | none => p
  | some j =>
      match j.waiting with
      | l :: ls =>
          if p.jobs.any fun j' => l ∈ j'.held then p
          else { p with jobs := p.jobs.set i ⟨ls, l :: j.held, j.task⟩ }
      | [] =>
          let (t, s) := j.task.go p.state
          ⟨s, p.jobs.set i ⟨[], if t.finished then [] else j.held, t⟩⟩

/-- Every command under way keeps `R` in each of its stretches. -/
def AllSound (R : σ → σ → Prop) (p : Pool σ ε κ) : Prop := ∀ j ∈ p.jobs, Task.Sound R j.task

variable {R : σ → σ → Prop}

theorem submit_sound {p : Pool σ ε κ} {locks : List κ} {t : Task σ ε Unit} (h : AllSound R p) (ht : Task.Sound R t) :
    AllSound R (submit p locks t) := by
  intro j hj
  rcases List.mem_append.1 hj with hj | hj
  · exact h j hj
  · rw [List.mem_singleton.1 hj]
    exact ht

theorem poll_sound [DecidableEq κ] (hr : ∀ s, R s s) {p : Pool σ ε κ} (h : AllSound R p) (i : Nat) :
    R p.state (poll p i).state ∧ AllSound R (poll p i) := by
  unfold poll
  split
  next => exact ⟨hr _, h⟩
  next j hj =>
    have hsound : Task.Sound R j.task := h j (List.mem_of_getElem? hj)
    split
    next l ls hw =>
      split
      next => exact ⟨hr _, h⟩
      next =>
        refine ⟨hr _, fun j' hj' => ?_⟩
        rcases List.mem_or_eq_of_mem_set hj' with hj' | rfl
        · exact h j' hj'
        · exact hsound
    next hw =>
      obtain ⟨hR, hleft⟩ := Task.go_sound (s := p.state) hsound hr
      refine ⟨hR, fun j' hj' => ?_⟩
      rcases List.mem_or_eq_of_mem_set hj' with hj' | rfl
      · exact h j' hj'
      · exact hleft

end Pool

end Arveil
