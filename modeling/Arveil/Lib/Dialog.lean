import Mathlib.Logic.Relation
import Arveil.Lib.Prog

/-! Commands that ask a server and wait for its answers. A command keeps the thread from one
question to the next and writes in steps; it may be cut off after any of them. `Safe`
follows a command: each of its steps keeps `G`, and at a question it goes on from whatever
state `R` leads to while it waits there, with any answer that `Re` allows then. -/

namespace Arveil

/-- A command over a shared state: writes, and questions. -/
inductive Dialog (σ Q A ε α : Type) where
  | done (r : Except ε α)
  | step (f : σ → σ) (k : σ → Dialog σ Q A ε α)
  | ask (q : Q) (k : A → Dialog σ Q A ε α)

namespace Dialog

variable {σ Q A ε α β : Type}

def bind : Dialog σ Q A ε α → (α → Dialog σ Q A ε β) → Dialog σ Q A ε β
  | .done (.ok a), g => g a
  | .done (.error e), _ => .done (.error e)
  | .step f k, g => .step f fun s => (k s).bind g
  | .ask q k, g => .ask q fun a => (k a).bind g

instance : Monad (Dialog σ Q A ε) where
  pure a := .done (.ok a)
  bind := Dialog.bind

def fail (e : ε) : Dialog σ Q A ε α := .done (.error e)

/-- One write: a program on the state, as a whole. -/
def call (p : Prog σ ε α) : Dialog σ Q A ε α := .step (fun s => (p s).2) fun s => .done (p s).1

/-- Ask, and wait for the answer. -/
def question (q : Q) : Dialog σ Q A ε A := .ask q fun a => .done (.ok a)

/-- The outcome of a command as a value; its failure does not stop the caller. -/
def attempt : Dialog σ Q A ε α → Dialog σ Q A ε (Except ε α)
  | .done r => .done (.ok r)
  | .step f k => .step f fun s => (k s).attempt
  | .ask q k => .ask q fun a => (k a).attempt

def go : Dialog σ Q A ε α → σ → Dialog σ Q A ε α × σ
  | .done r, s => (.done r, s)
  | .step f k, s => go (k s) (f s)
  | .ask q k, s => (.ask q k, s)

/-- The state after the first `n` writes of a stretch. -/
def cut : Nat → Dialog σ Q A ε α → σ → σ
  | n + 1, .step f k, s => cut n (k s) (f s)
  | _, _, s => s

def asks : Dialog σ Q A ε α → Option Q
  | .ask q _ => some q
  | _ => none

def reply (a : A) : Dialog σ Q A ε α → Dialog σ Q A ε α
  | .ask _ k => k a
  | t => t

section safe

variable {G : σ → σ → Prop} {R : Q → σ → σ → Prop} {Re : Q → A → σ → Prop} {Post Post' : Except ε α → σ → Prop}

def Safe (G : σ → σ → Prop) (R : Q → σ → σ → Prop) (Re : Q → A → σ → Prop) (Post : Except ε α → σ → Prop) :
    Dialog σ Q A ε α → σ → Prop
  | .done r, s => Post r s
  | .step f k, s => G s (f s) ∧ Safe G R Re Post (k s) (f s)
  | .ask q k, s => ∀ s', R q s s' → ∀ a, Re q a s' → Safe G R Re Post (k a) s'

theorem safe_mono (h : ∀ r s, Post r s → Post' r s) {t : Dialog σ Q A ε α} :
    ∀ {s : σ}, Safe G R Re Post t s → Safe G R Re Post' t s := by
  induction t with
  | done r => exact fun ht => h r _ ht
  | step f k ih => exact fun ht => ⟨ht.1, ih _ ht.2⟩
  | ask q k ih => exact fun ht s' hs a ha => ih a (ht s' hs a ha)

theorem safe_bind {t : Dialog σ Q A ε α} {g : α → Dialog σ Q A ε β} {Post : Except ε β → σ → Prop} :
    ∀ {s : σ}, Safe G R Re (fun r s => match r with
      | .ok a => Safe G R Re Post (g a) s
      | .error e => Post (.error e) s) t s → Safe G R Re Post (t >>= g) s := by
  induction t with
  | done r =>
    intro s h
    cases r with
    | ok a => exact h
    | error e => exact h
  | step f k ih => exact fun h => ⟨h.1, ih _ h.2⟩
  | ask q k ih => exact fun h s' hs a ha => ih a (h s' hs a ha)

theorem safe_attempt {t : Dialog σ Q A ε α} {Post : Except ε (Except ε α) → σ → Prop} :
    ∀ {s : σ}, Safe G R Re (fun r s => Post (.ok r) s) t s → Safe G R Re Post t.attempt s := by
  induction t with
  | done r => exact fun h => h
  | step f k ih => exact fun h => ⟨h.1, ih _ h.2⟩
  | ask q k ih => exact fun h s' hs a ha => ih a (h s' hs a ha)

theorem safe_call {p : Prog σ ε α} {s : σ} (hg : G s (p s).2) (h : Post (p s).1 (p s).2) : Safe G R Re Post (call p) s := ⟨hg, h⟩

theorem safe_call_bind {p : Prog σ ε α} {g : α → Dialog σ Q A ε β} {Post : Except ε β → σ → Prop} {s : σ} (hg : G s (p s).2)
    (herror : ∀ e s', p s = (.error e, s') → Post (.error e) s') (hok : ∀ a s', p s = (.ok a, s') → Safe G R Re Post (g a) s') :
    Safe G R Re Post (call p >>= g) s := by
  refine safe_bind (safe_call hg ?_)
  rcases hp : p s with ⟨e | a, s'⟩
  · exact herror e s' hp
  · exact hok a s' hp

theorem safe_question_bind {q : Q} {g : A → Dialog σ Q A ε β} {Post : Except ε β → σ → Prop} {s : σ}
    (h : ∀ s', R q s s' → ∀ a, Re q a s' → Safe G R Re Post (g a) s') : Safe G R Re Post (question q >>= g) s := h

theorem safe_rely (ht : ∀ q a b c, R q a b → R q b c → R q a c) {t : Dialog σ Q A ε α} {q : Q} (hq : t.asks = some q) {s s' : σ}
    (h : Safe G R Re Post t s) (hs : R q s s') : Safe G R Re Post t s' := by
  cases t with
  | done r => cases hq
  | step f k => cases hq
  | ask q' k =>
    obtain rfl := Option.some.inj hq
    exact fun s₂ hs₂ a ha => h s₂ (ht _ _ _ _ hs hs₂) a ha

theorem safe_reply (hr : ∀ q s, R q s s) {t : Dialog σ Q A ε α} {q : Q} (hq : t.asks = some q) {s : σ} (h : Safe G R Re Post t s) {a : A}
    (ha : Re q a s) : Safe G R Re Post (t.reply a) s := by
  cases t with
  | done r => cases hq
  | step f k => cases hq
  | ask q' k =>
    obtain rfl := Option.some.inj hq
    exact h s (hr q' s) a ha

theorem go_safe {t : Dialog σ Q A ε α} : ∀ {s : σ}, Safe G R Re Post t s →
    Relation.ReflTransGen G s (go t s).2 ∧ Safe G R Re Post (go t s).1 (go t s).2 := by
  induction t with
  | done r => exact fun h => ⟨.refl, h⟩
  | step f k ih => exact fun h => ⟨.head h.1 (ih _ h.2).1, (ih _ h.2).2⟩
  | ask q k ih => exact fun h => ⟨.refl, h⟩

theorem cut_safe (n : Nat) {t : Dialog σ Q A ε α} : ∀ {s : σ}, Safe G R Re Post t s → Relation.ReflTransGen G s (cut n t s) := by
  induction n generalizing t with
  | zero => exact fun _ => .refl
  | succ n ih =>
    intro s h
    cases t with
    | done r => exact .refl
    | step f k => exact .head h.1 (ih h.2)
    | ask q k => exact .refl

end safe

theorem go_ends (t : Dialog σ Q A ε α) (s : σ) : (∃ r, (go t s).1 = .done r) ∨ ∃ q, (go t s).1.asks = some q := by
  induction t generalizing s with
  | done r => exact Or.inl ⟨r, rfl⟩
  | step f k ih => exact ih _ _
  | ask q k ih => exact Or.inr ⟨q, rfl⟩

end Dialog

end Arveil
