import Arveil.Lib.Prog

/-! Handlers of requests against a store they share. A handler goes from one call of the
store to the next; a call is one step, and whatever the other handlers do lies between two
calls. `Sound` follows a handler from call to call: what it calls is allowed whenever the
call is made, as long as the others keep to `R`. -/

namespace Arveil

/-- A store: its calls, what they return and what they do. -/
structure Service (σ ε : Type) where
  Call : Type
  Result : Call → Type
  prog : (c : Call) → Prog σ ε (Result c)

inductive Handler {σ ε : Type} (I : Service σ ε) (α : Type) where
  | done (a : α)
  | call (c : I.Call) (k : Except ε (I.Result c) → Handler I α)

namespace Handler

variable {σ ε α β : Type} {I : Service σ ε}

def bind : Handler I α → (α → Handler I β) → Handler I β
  | .done a, f => f a
  | .call c k, f => .call c fun r => (k r).bind f

instance : Monad (Handler I) where
  pure := .done
  bind := Handler.bind

def ask (c : I.Call) : Handler I (Except ε (I.Result c)) := .call c .done

def step : Handler I α → σ → Handler I α × σ
  | .done a, s => (.done a, s)
  | .call c k, s => (k (I.prog c s).1, (I.prog c s).2)

/-- Make the next `n` calls; a handler that is done makes none. -/
def steps : Nat → Handler I α → σ → Handler I α × σ
  | 0, h, s => (h, s)
  | n + 1, h, s => steps n (h.step s).1 (h.step s).2

/-- Make all calls that are left, with nobody else at the store. -/
def finish : Handler I α → σ → α × σ
  | .done a, s => (a, s)
  | .call c k, s => (k (I.prog c s).1).finish (I.prog c s).2

@[simp] theorem steps_pure (n : Nat) (a : α) (s : σ) : steps n (pure a : Handler I α) s = (pure a, s) := by
  induction n with
  | zero => rfl
  | succ n ih => exact ih

@[simp] theorem finish_pure (a : α) (s : σ) : (pure a : Handler I α).finish s = (a, s) := rfl

theorem finish_ask_bind (c : I.Call) (f : Except ε (I.Result c) → Handler I α) (s : σ) :
    (ask c >>= f).finish s = (f (I.prog c s).1).finish (I.prog c s).2 := rfl

def next : Handler I α → Option I.Call
  | .done _ => none
  | .call c _ => some c

variable {R : σ → σ → Prop} {Pre Cond : I.Call → σ → Prop} {Q : α → σ → Prop}

/-- Whenever a call is made, in a state `R` leads to, it is allowed; and if the calls meet
`Cond` the handler ends in `Q`. -/
def Sound (R : σ → σ → Prop) (Pre Cond : I.Call → σ → Prop) (Q : α → σ → Prop) : Handler I α → σ → Prop
  | .done a, s => Q a s
  | .call c k, s => ∀ s', R s s' → Pre c s' ∧ (Cond c s' → Sound R Pre Cond Q (k (I.prog c s').1) (I.prog c s').2)

theorem sound_bind {h : Handler I α} {f : α → Handler I β} {Q : β → σ → Prop} :
    ∀ {s : σ}, Sound R Pre Cond (fun a s => Sound R Pre Cond Q (f a) s) h s → Sound R Pre Cond Q (h >>= f) s := by
  induction h with
  | done a => exact fun hs => hs
  | call c k ih => exact fun hs s' hr => ⟨(hs s' hr).1, fun hc => ih _ ((hs s' hr).2 hc)⟩

theorem sound_ask_bind {c : I.Call} {f : Except ε (I.Result c) → Handler I α} {s : σ}
    (h : ∀ s', R s s' → Pre c s' ∧ (Cond c s' → Sound R Pre Cond Q (f (I.prog c s').1) (I.prog c s').2)) :
    Sound R Pre Cond Q (ask c >>= f) s := h

theorem Sound.later (ht : ∀ a b c, R a b → R b c → R a c) {c : I.Call} {k : Except ε (I.Result c) → Handler I α} {s s' : σ}
    (h : Sound R Pre Cond Q (.call c k) s) (hr : R s s') : Sound R Pre Cond Q (.call c k) s' :=
  fun s'' hr' => h s'' (ht _ _ _ hr hr')

section ready

variable {Ready : σ → Prop}

theorem Sound.pre {h : Handler I α} {s : σ} (hs : Sound (fun _ s' => Ready s') Pre Cond Q h s) {c : I.Call}
    (hc : h.next = some c) (hready : Ready s) : Pre c s := by
  cases h with
  | done a => cases hc
  | call c' k =>
    obtain rfl := Option.some.inj hc
    exact (hs s hready).1

theorem Sound.step {h : Handler I α} {s : σ} (hs : Sound (fun _ s' => Ready s') Pre Cond Q h s)
    (hready : ∀ c, h.next = some c → Ready s ∧ Cond c s) :
    Sound (fun _ s' => Ready s') Pre Cond Q (h.step s).1 (h.step s).2 := by
  cases h with
  | done a => exact hs
  | call c k => exact (hs s (hready c rfl).1).2 (hready c rfl).2

theorem Sound.elsewhere {h : Handler I α} {s s' : σ} (hs : Sound (fun _ s => Ready s) Pre Cond Q h s)
    (hq : ∀ a, Q a s → Q a s') : Sound (fun _ s => Ready s) Pre Cond Q h s' := by
  cases h with
  | done a => exact hq a hs
  | call c k => exact hs

theorem step_snd (h : Handler I α) (s : σ) :
    (h.next = none ∧ (h.step s).2 = s) ∨ ∃ c, h.next = some c ∧ (h.step s).2 = (I.prog c s).2 := by
  cases h with
  | done a => exact Or.inl ⟨rfl, rfl⟩
  | call c k => exact Or.inr ⟨c, rfl, rfl⟩

end ready

end Handler

end Arveil
