import Arveil.Lib.Dialog

/-! Operations on one thread. An operation runs from one question to the next without a break, so
others see only the states in which it waits. `Waits` follows an operation: each of its writes
keeps `G`, whenever it waits with a question the state meets `J`, others move the state by `R`
meanwhile, `Re` says which answers may come then, and `land` is what an answer leaves behind. -/

namespace Arveil.Dialog

variable {σ Q A ε α β : Type} {G R : σ → σ → Prop} {J : Q → σ → Prop} {Re : Q → A → σ → Prop}
  {land : Q → A → σ → σ} {Post Post' : Except ε α → σ → Prop}

def look : Dialog σ Q A ε σ := .step id fun s => .done (.ok s)

def write (f : σ → σ) : Dialog σ Q A ε Unit := .step f fun _ => .done (.ok ())

def Waits (G : σ → σ → Prop) (J : Q → σ → Prop) (R : σ → σ → Prop) (Re : Q → A → σ → Prop) (land : Q → A → σ → σ)
    (Post : Except ε α → σ → Prop) : Dialog σ Q A ε α → σ → Prop
  | .done r, s => Post r s
  | .step f k, s => G s (f s) ∧ Waits G J R Re land Post (k s) (f s)
  | .ask q k, s => J q s ∧ ∀ s', R s s' → ∀ a, Re q a s' → Waits G J R Re land Post (k a) (land q a s')

theorem waits_mono (h : ∀ r s, Post r s → Post' r s) {t : Dialog σ Q A ε α} :
    ∀ {s : σ}, Waits G J R Re land Post t s → Waits G J R Re land Post' t s := by
  induction t with
  | done r => exact fun ht => h r _ ht
  | step f k ih => exact fun ht => ⟨ht.1, ih _ ht.2⟩
  | ask q k ih => exact fun ht => ⟨ht.1, fun s' hs a ha => ih a (ht.2 s' hs a ha)⟩

theorem waits_bind {t : Dialog σ Q A ε α} {g : α → Dialog σ Q A ε β} {Post : Except ε β → σ → Prop} :
    ∀ {s : σ}, Waits G J R Re land (fun r s => match r with
      | .ok a => Waits G J R Re land Post (g a) s
      | .error e => Post (.error e) s) t s → Waits G J R Re land Post (t >>= g) s := by
  induction t with
  | done r =>
    intro s h
    cases r with
    | ok a => exact h
    | error e => exact h
  | step f k ih => exact fun h => ⟨h.1, ih _ h.2⟩
  | ask q k ih => exact fun h => ⟨h.1, fun s' hs a ha => ih a (h.2 s' hs a ha)⟩

theorem waits_attempt {t : Dialog σ Q A ε α} {Post : Except ε (Except ε α) → σ → Prop} :
    ∀ {s : σ}, Waits G J R Re land (fun r s => Post (.ok r) s) t s → Waits G J R Re land Post t.attempt s := by
  induction t with
  | done r => exact fun h => h
  | step f k ih => exact fun h => ⟨h.1, ih _ h.2⟩
  | ask q k ih => exact fun h => ⟨h.1, fun s' hs a ha => ih a (h.2 s' hs a ha)⟩

theorem waits_look_bind {g : σ → Dialog σ Q A ε β} {Post : Except ε β → σ → Prop} {s : σ} (hg : G s s)
    (h : Waits G J R Re land Post (g s) s) : Waits G J R Re land Post (look >>= g) s := ⟨hg, h⟩

theorem waits_write_bind {f : σ → σ} {g : Unit → Dialog σ Q A ε β} {Post : Except ε β → σ → Prop} {s : σ} (hg : G s (f s))
    (h : Waits G J R Re land Post (g ()) (f s)) : Waits G J R Re land Post (write f >>= g) s := ⟨hg, h⟩

theorem waits_question_bind {q : Q} {g : A → Dialog σ Q A ε β} {Post : Except ε β → σ → Prop} {s : σ} (hj : J q s)
    (h : ∀ s', R s s' → ∀ a, Re q a s' → Waits G J R Re land Post (g a) (land q a s')) :
    Waits G J R Re land Post (question q >>= g) s := ⟨hj, h⟩

theorem waits_done_bind {r : Except ε α} {g : α → Dialog σ Q A ε β} {Post : Except ε β → σ → Prop} {s : σ}
    (hok : ∀ a, r = .ok a → Waits G J R Re land Post (g a) s) (herror : ∀ e, r = .error e → Post (.error e) s) :
    Waits G J R Re land Post (.done r >>= g) s := by
  cases r with
  | ok a => exact hok a rfl
  | error e => exact herror e rfl

theorem waits_go {t : Dialog σ Q A ε α} : ∀ {s : σ}, Waits G J R Re land Post t s →
    Relation.ReflTransGen G s (go t s).2 ∧ Waits G J R Re land Post (go t s).1 (go t s).2 := by
  induction t with
  | done r => exact fun h => ⟨.refl, h⟩
  | step f k ih => exact fun h => ⟨.head h.1 (ih _ h.2).1, (ih _ h.2).2⟩
  | ask q k ih => exact fun h => ⟨.refl, h⟩

theorem waits_rely (ht : ∀ a b c, R a b → R b c → R a c) (hj : ∀ q a b, J q a → R a b → J q b) {t : Dialog σ Q A ε α} {q : Q}
    (hq : t.asks = some q) {s s' : σ} (h : Waits G J R Re land Post t s) (hs : R s s') : Waits G J R Re land Post t s' := by
  cases t with
  | done r => cases hq
  | step f k => cases hq
  | ask q' k => exact ⟨hj _ _ _ h.1 hs, fun s₂ hs₂ a ha => h.2 s₂ (ht _ _ _ hs hs₂) a ha⟩

theorem waits_reply (hr : ∀ s, R s s) {t : Dialog σ Q A ε α} {q : Q} (hq : t.asks = some q) {s : σ}
    (h : Waits G J R Re land Post t s) {a : A} (ha : Re q a s) : Waits G J R Re land Post (t.reply a) (land q a s) := by
  cases t with
  | done r => cases hq
  | step f k => cases hq
  | ask q' k =>
    obtain rfl := Option.some.inj hq
    exact h.2 s (hr s) a ha

theorem Waits.asked {t : Dialog σ Q A ε α} {q : Q} (hq : t.asks = some q) {s : σ} (h : Waits G J R Re land Post t s) : J q s := by
  cases t with
  | done r => cases hq
  | step f k => cases hq
  | ask q' k =>
    obtain rfl := Option.some.inj hq
    exact h.1

end Arveil.Dialog
