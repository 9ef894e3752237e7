import Mathlib.Data.List.Nodup
import Mathlib.Data.List.Basic
import Mathlib.Algebra.Order.BigOperators.Group.List
import Mathlib.Algebra.Order.Ring.Nat

/-! Keyed tables. The rows stand in insertion order, as a database scans a table
by row id, and the structure carries the uniqueness of its primary key. -/

namespace Arveil

/-- Rows in insertion order, no two of them with the same key. -/
structure Table {ρ κ : Type} (key : ρ → κ) where
  rows : List ρ
  nodup : (rows.map key).Nodup

namespace Table

variable {ρ κ : Type} {key : ρ → κ}

instance : Membership ρ (Table key) where
  mem t r := r ∈ t.rows

instance [DecidableEq ρ] (t : Table key) (r : ρ) : Decidable (r ∈ t) := inferInstanceAs (Decidable (r ∈ t.rows))

theorem mem_def (t : Table key) (r : ρ) : r ∈ t ↔ r ∈ t.rows := Iff.rfl

theorem exists_mem {t : Table key} {P : ρ → Prop} (h : ∃ r ∈ t.rows, P r) : ∃ r, r ∈ t ∧ P r := h

def empty : Table key := ⟨[], List.nodup_nil⟩

@[simp] theorem not_mem_empty (r : ρ) : ¬ r ∈ (empty : Table key) := List.not_mem_nil

theorem eq_of_key {t : Table key} {r r' : ρ} (h : r ∈ t) (h' : r' ∈ t) (hk : key r = key r') : r = r' :=
  List.inj_on_of_nodup_map t.nodup h h' hk

/-- `UPDATE … SET f WHERE p`. The columns `f` sets are no part of the key. -/
def update (p : ρ → Bool) (f : ρ → ρ) (hf : ∀ r, key (f r) = key r) (t : Table key) : Table key where
  rows := t.rows.map fun r => if p r then f r else r
  nodup := by
    have h : (t.rows.map fun r => if p r then f r else r).map key = t.rows.map key := by
      rw [List.map_map]
      apply List.map_congr_left
      intro r _
      by_cases hp : p r = true <;> simp [hp, hf]
    rw [h]
    exact t.nodup

theorem mem_update {p : ρ → Bool} {f : ρ → ρ} {hf : ∀ r, key (f r) = key r} {t : Table key} {r' : ρ} :
    r' ∈ t.update p f hf ↔ ∃ r ∈ t, (if p r then f r else r) = r' := by
  simp [mem_def, update]

theorem mem_update_of_mem {p : ρ → Bool} {f : ρ → ρ} {hf : ∀ r, key (f r) = key r} {t : Table key} {r : ρ}
    (h : r ∈ t) : (if p r then f r else r) ∈ t.update p f hf := mem_update.2 ⟨r, h, rfl⟩

theorem mem_update_pos {p : ρ → Bool} {f : ρ → ρ} {hf : ∀ r, key (f r) = key r} {t : Table key} {r : ρ}
    (h : r ∈ t) (hp : p r = true) : f r ∈ t.update p f hf := mem_update.2 ⟨r, h, if_pos hp⟩

theorem mem_update_neg {p : ρ → Bool} {f : ρ → ρ} {hf : ∀ r, key (f r) = key r} {t : Table key} {r : ρ}
    (h : r ∈ t) (hp : p r = false) : r ∈ t.update p f hf := mem_update.2 ⟨r, h, by simp [hp]⟩

theorem of_mem_update {p : ρ → Bool} {f : ρ → ρ} {hf : ∀ r, key (f r) = key r} {t : Table key} {r' : ρ}
    (h : r' ∈ t.update p f hf) : (r' ∈ t ∧ p r' = false) ∨ ∃ r ∈ t, p r = true ∧ r' = f r := by
  obtain ⟨r, hr, he⟩ := mem_update.1 h
  by_cases hp : p r = true
  · rw [if_pos hp] at he
    exact Or.inr ⟨r, hr, hp, he.symm⟩
  · rw [if_neg hp] at he
    subst he
    exact Or.inl ⟨hr, Bool.not_eq_true _ ▸ hp⟩

theorem exists_key_update {p : ρ → Bool} {f : ρ → ρ} {hf : ∀ r, key (f r) = key r} {t : Table key} {k : κ} :
    (∃ r ∈ t.update p f hf, key r = k) ↔ ∃ r ∈ t, key r = k := by
  constructor
  · rintro ⟨r', hr', hk⟩
    rcases of_mem_update hr' with ⟨hr, -⟩ | ⟨r, hr, -, rfl⟩
    · exact ⟨r', hr, hk⟩
    · exact ⟨r, hr, (hf r).symm.trans hk⟩
  · rintro ⟨r, hr, hk⟩
    refine ⟨_, mem_update_of_mem hr, ?_⟩
    by_cases hp : p r = true
    · simp only [if_pos hp, hf, hk]
    · simp only [if_neg hp, hk]

/-- `DELETE … WHERE p` -/
def delete (p : ρ → Bool) (t : Table key) : Table key where
  rows := t.rows.filter fun r => !p r
  nodup := t.nodup.sublist (List.filter_sublist.map key)

theorem mem_delete {p : ρ → Bool} {t : Table key} {r : ρ} : r ∈ t.delete p ↔ r ∈ t ∧ p r = false := by
  simp [mem_def, delete]

/-- `SELECT SUM(w)` -/
def sum (w : ρ → Nat) (t : Table key) : Nat := (t.rows.map w).sum

section sums

variable {w w' : ρ → Nat}

theorem sum_le {t : Table key} (h : ∀ r ∈ t, w r ≤ w' r) : t.sum w ≤ t.sum w' := List.sum_le_sum h

theorem sum_delete_le (p : ρ → Bool) (t : Table key) : (t.delete p).sum w ≤ t.sum w :=
  (List.filter_sublist.map w).sum_le_sum fun _ _ => Nat.zero_le _

theorem sum_update_same {p : ρ → Bool} {f : ρ → ρ} {hf : ∀ r, key (f r) = key r} {t : Table key}
    (h : ∀ r ∈ t, p r = true → w (f r) = w r) : (t.update p f hf).sum w = t.sum w := by
  unfold sum update
  rw [List.map_map]
  congr 1
  refine List.map_congr_left fun r hr => ?_
  by_cases hp : p r = true
  · simp [hp, h r hr hp]
  · simp [hp]

end sums

variable [DecidableEq κ]

/-- `SELECT … WHERE key = k` -/
def get? (t : Table key) (k : κ) : Option ρ := t.rows.find? fun r => key r = k

theorem get?_eq_some {t : Table key} {k : κ} {r : ρ} : t.get? k = some r ↔ r ∈ t ∧ key r = k := by
  constructor
  · intro h
    exact ⟨List.mem_of_find?_eq_some h, by simpa using List.find?_some h⟩
  · rintro ⟨hr, hk⟩
    cases hg : t.get? k with
    | none =>
      have := List.find?_eq_none.1 hg r hr
      simp [hk] at this
    | some r' =>
      have hr' : r' ∈ t := List.mem_of_find?_eq_some hg
      have hk' : key r' = k := by simpa using List.find?_some hg
      rw [eq_of_key hr' hr (hk'.trans hk.symm)]

theorem get?_eq_none {t : Table key} {k : κ} : t.get? k = none ↔ ∀ r ∈ t, key r ≠ k := by
  simp [get?, mem_def]

theorem get?_update {p : ρ → Bool} {f : ρ → ρ} {hf : ∀ r, key (f r) = key r} (t : Table key) (k : κ) :
    (t.update p f hf).get? k = (t.get? k).map fun r => if p r then f r else r := by
  cases hg : t.get? k with
  | none =>
    refine get?_eq_none.2 fun r' hr' hk => ?_
    obtain ⟨r, hr, rfl⟩ := mem_update.1 hr'
    refine get?_eq_none.1 hg r hr ?_
    split at hk
    · rw [← hf r, hk]
    · exact hk
  | some r =>
    obtain ⟨hr, hk⟩ := get?_eq_some.1 hg
    refine get?_eq_some.2 ⟨mem_update_of_mem hr, ?_⟩
    by_cases hp : p r = true
    · simp only [if_pos hp, hf, hk]
    · simp only [if_neg hp, hk]

/-- `INSERT`, refused on a taken key. -/
def insert (t : Table key) (new : ρ) : Option (Table key) :=
  if h : key new ∈ t.rows.map key then none
  else some ⟨t.rows ++ [new], by
    rw [List.map_append, List.nodup_append]
    exact ⟨t.nodup, by simp, by simpa using fun r hr he => h (List.mem_map.2 ⟨r, hr, he⟩)⟩⟩

theorem insert_eq_some {t t' : Table key} {new : ρ} (h : t.insert new = some t') :
    t'.rows = t.rows ++ [new] ∧ ∀ r ∈ t, key r ≠ key new := by
  unfold insert at h
  split at h
  · cases h
  · next hk =>
    obtain rfl := Option.some.inj h
    exact ⟨rfl, fun r hr he => hk (List.mem_map.2 ⟨r, hr, he⟩)⟩

theorem insert_eq_none {t : Table key} {new : ρ} : t.insert new = none ↔ ∃ r ∈ t, key r = key new := by
  unfold insert
  split
  · next hk => simpa [mem_def] using hk
  · next hk =>
    simp only [reduceCtorEq, false_iff]
    rintro ⟨r, hr, he⟩
    exact hk (List.mem_map.2 ⟨r, hr, he⟩)

theorem mem_insert {t t' : Table key} {new r : ρ} (h : t.insert new = some t') :
    r ∈ t' ↔ r ∈ t ∨ r = new := by
  rw [mem_def, (insert_eq_some h).1]
  simp [mem_def]

theorem get?_insert {t t' : Table key} {new : ρ} (h : t.insert new = some t') (k : κ) :
    t'.get? k = if key new = k then some new else t.get? k := by
  obtain ⟨hrows, hfree⟩ := insert_eq_some h
  split
  · next hk => exact get?_eq_some.2 ⟨(mem_insert h).2 (Or.inr rfl), hk⟩
  · next hk => simp [get?, hrows, List.find?_append, hk]

/-- `INSERT … ON CONFLICT DO NOTHING` -/
def insertOrIgnore (t : Table key) (new : ρ) : Table key := (t.insert new).getD t

theorem mem_insertOrIgnore {t : Table key} {new r : ρ} (h : r ∈ t.insertOrIgnore new) : r ∈ t ∨ r = new := by
  unfold insertOrIgnore at h
  cases hi : t.insert new with
  | none => rw [hi] at h; exact Or.inl h
  | some t' => rw [hi] at h; exact (mem_insert hi).1 h

/-- `INSERT OR REPLACE`: the old row with the key goes, the new one is last. -/
def replace (t : Table key) (new : ρ) : Table key where
  rows := t.rows.filter (fun r => key r ≠ key new) ++ [new]
  nodup := by
    rw [List.map_append, List.nodup_append]
    refine ⟨t.nodup.sublist (List.filter_sublist.map key), by simp, ?_⟩
    intro a ha b hb
    obtain ⟨r, hr, rfl⟩ := List.mem_map.1 ha
    have hne := (List.mem_filter.1 hr).2
    simp only [List.map_cons, List.map_nil, List.mem_singleton] at hb
    simpa [hb] using hne

theorem mem_replace {t : Table key} {new r : ρ} :
    r ∈ t.replace new ↔ (r ∈ t ∧ key r ≠ key new) ∨ r = new := by
  simp [mem_def, replace]

/-- `INSERT … ON CONFLICT DO UPDATE SET merge` -/
def upsert (merge : ρ → ρ → ρ) (hm : ∀ r new, key (merge r new) = key r) (t : Table key) (new : ρ) : Table key :=
  match t.insert new with
  | some t' => t'
  | none => t.update (fun r => key r = key new) (fun r => merge r new) (fun r => hm r new)

theorem mem_upsert {merge : ρ → ρ → ρ} {hm : ∀ r new, key (merge r new) = key r} {t : Table key} {new r' : ρ}
    (h : r' ∈ t.upsert merge hm new) :
    (∃ r ∈ t, key r = key new ∧ r' = merge r new) ∨ (r' ∈ t ∧ key r' ≠ key new) ∨
      (r' = new ∧ ∀ r ∈ t, key r ≠ key new) := by
  unfold upsert at h
  cases hi : t.insert new with
  | some t' =>
    rw [hi] at h
    have hne := (insert_eq_some hi).2
    rcases (mem_insert hi).1 h with hr | rfl
    · exact Or.inr (Or.inl ⟨hr, hne r' hr⟩)
    · exact Or.inr (Or.inr ⟨rfl, hne⟩)
  | none =>
    rw [hi] at h
    obtain ⟨r, hr, rfl⟩ := mem_update.1 h
    by_cases hk : key r = key new
    · exact Or.inl ⟨r, hr, hk, by simp [hk]⟩
    · exact Or.inr (Or.inl ⟨by simpa [hk] using hr, by simp [hk]⟩)

theorem get?_upsert {merge : ρ → ρ → ρ} {hm : ∀ r new, key (merge r new) = key r} (t : Table key) (new : ρ) (k : κ) :
    (t.upsert merge hm new).get? k =
      if key new = k then some ((t.get? k).elim new (merge · new)) else t.get? k := by
  unfold upsert
  cases hi : t.insert new with
  | some t' =>
    obtain ⟨hrows, hfree⟩ := insert_eq_some hi
    simp only [get?, hrows, List.find?_append]
    by_cases hk : key new = k
    · have hnone : t.rows.find? (fun r => key r = k) = none :=
        List.find?_eq_none.2 fun r hr => by simpa [hk] using hfree r hr
      simp [hk, hnone]
    · simp [hk]
  | none =>
    obtain ⟨r, hr, hkr⟩ := insert_eq_none.1 hi
    simp only [get?_update]
    by_cases hk : key new = k
    · rw [get?_eq_some.2 ⟨hr, hkr.trans hk⟩]
      simp [hkr, hk]
    · rw [if_neg hk]
      cases hg : t.get? k with
      | none => rfl
      | some r' =>
        have hne : key r' ≠ key new := fun he => hk (he.symm.trans (get?_eq_some.1 hg).2)
        simp [hne]

theorem mem_upsert_of_mem {merge : ρ → ρ → ρ} {hm : ∀ r new, key (merge r new) = key r} {t : Table key}
    {new r : ρ} (h : r ∈ t) :
    (if key r = key new then merge r new else r) ∈ t.upsert merge hm new := by
  unfold upsert
  cases hi : t.insert new with
  | some t' =>
    have hne := (insert_eq_some hi).2 r h
    simpa [hne] using (mem_insert hi).2 (Or.inl h)
  | none =>
    refine mem_update.2 ⟨r, h, ?_⟩
    simp only [decide_eq_true_eq]

theorem sum_insert {w : ρ → Nat} {t t' : Table key} {new : ρ} (h : t.insert new = some t') : t'.sum w = t.sum w + w new := by
  rw [sum, (insert_eq_some h).1, List.map_append, List.sum_append, List.map_singleton, List.sum_singleton]
  rfl

theorem sum_update_key {w : ρ → Nat} {f : ρ → ρ} {hf : ∀ r, key (f r) = key r} {t : Table key} {k : κ} {r : ρ} (h : t.get? k = some r) :
    (t.update (fun r => key r = k) f hf).sum w + w r = t.sum w + w (f r) := by
  obtain ⟨hr, hk⟩ := get?_eq_some.1 h
  obtain ⟨before, after, hrows⟩ := List.append_of_mem (show r ∈ t.rows from hr)
  have hnodup := t.nodup
  rw [hrows, List.map_append, List.map_cons, List.nodup_middle, List.nodup_cons] at hnodup
  have hothers : ∀ rs : List ρ, (∀ r' ∈ rs, r' ∈ before ++ after) →
      rs.map (fun r => if decide (key r = k) = true then f r else r) = rs := by
    intro rs hrs
    refine (List.map_congr_left fun r' hr' => ?_).trans (List.map_id rs)
    have hne : key r' ≠ k := by
      intro hk'
      refine hnodup.1 ?_
      rw [← List.map_append, hk, ← hk']
      exact List.mem_map_of_mem (hrs r' hr')
    simp [hne]
  have hbefore := hothers before fun r' hr' => List.mem_append_left after hr'
  have hafter := hothers after fun r' hr' => List.mem_append_right before hr'
  unfold sum update
  dsimp only
  rw [hrows, List.map_append, List.map_cons, hbefore, hafter]
  simp only [hk, decide_true, if_true, List.map_append, List.map_cons, List.sum_append, List.sum_cons]
  omega

end Table

end Arveil
