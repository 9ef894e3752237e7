import Mathlib.Data.List.Induction
import Mathlib.Order.Basic
import Mathlib.Algebra.Order.Ring.Int
import Arveil.Spec.Schema

/-! Two connections that migrate one database. Every migration is applied once and in order
whatever their steps interleave to. An older build returns on a database a newer one has taken
further only where the newer one commits while the older one is under way. -/

namespace Arveil.Schema

open Trace (run run_cons run_append run_nil Meets)

variable {ρ : Type}

/-- The migrations after one version up to another. -/
def between (migrations : List (Migration ρ)) (first last : Int) : List (Migration ρ) :=
  migrations.filter fun m => decide (first < m.version) && decide ((m.version : Int) ≤ last)

def replay (rows : ρ) (migrations : List (Migration ρ)) : Except StorageError ρ := migrations.foldlM (fun rows m => m.apply rows) rows

def Increasing (migrations : List (Migration ρ)) : Prop := migrations.Pairwise fun a b => a.version < b.version

theorem between_self (l : List (Migration ρ)) (v : Int) : between l v v = [] := by
  refine List.filter_eq_nil_iff.2 fun m _ h => ?_
  simp only [Bool.and_eq_true, decide_eq_true_eq] at h
  omega

theorem between_next {l before rest : List (Migration ρ)} {m : Migration ρ} {first cur : Int} (hl : l = before ++ m :: rest)
    (hinc : Increasing l) (hbefore : ∀ m' ∈ before, (m'.version : Int) ≤ cur) (hfirst : first ≤ cur) (hm : cur < m.version) :
    between l first m.version = between l first cur ++ [m] := by
  obtain ⟨-, hafter, -⟩ := List.pairwise_append.1 (hl ▸ hinc : Increasing (before ++ m :: rest))
  have hrest := (List.pairwise_cons.1 hafter).1
  have hleft : between before first m.version = between before first cur := by
    refine List.filter_congr fun m' hm' => ?_
    have hle := hbefore m' hm'
    rw [decide_eq_true hle, decide_eq_true (show (m'.version : Int) ≤ m.version by omega)]
  have hnew : between (m :: rest) first m.version = [m] := by
    unfold between
    rw [List.filter_cons_of_pos (by simp only [Bool.and_eq_true, decide_eq_true_eq]; omega)]
    refine congrArg (m :: ·) (List.filter_eq_nil_iff.2 fun m' hm' h => ?_)
    have := hrest m' hm'
    simp only [Bool.and_eq_true, decide_eq_true_eq] at h
    omega
  have hold : between (m :: rest) first cur = [] := by
    refine List.filter_eq_nil_iff.2 fun m' hm' h => ?_
    simp only [Bool.and_eq_true, decide_eq_true_eq] at h
    rcases List.mem_cons.1 hm' with rfl | hm'
    · omega
    · have := hrest m' hm'
      omega
  have happ : ∀ last, between l first last = between before first last ++ between (m :: rest) first last := fun last => by
    rw [hl]
    exact List.filter_append ..
  rw [happ, happ, hleft, hnew, hold, List.append_nil]

theorem increasing_split {l : List (Migration ρ)} (hinc : Increasing l) (found : Nat) :
    ∃ before, l = before ++ l.filter (fun m => decide (found < m.version)) ∧ ∀ m ∈ before, m.version ≤ found := by
  induction l with
  | nil => exact ⟨[], rfl, nofun⟩
  | cons m l ih =>
    obtain ⟨hm, hl⟩ := List.pairwise_cons.1 hinc
    by_cases hlt : found < m.version
    · refine ⟨[], ?_, nofun⟩
      rw [List.nil_append, List.filter_eq_self.2]
      intro m' hm'
      rcases List.mem_cons.1 hm' with rfl | hm'
      · exact decide_eq_true hlt
      · have := hm m' hm'
        exact decide_eq_true (by omega)
    · obtain ⟨before, hsplit, hbefore⟩ := ih hl
      refine ⟨m :: before, ?_, fun m' hm' => ?_⟩
      · rw [List.filter_cons_of_neg (by simpa using hlt), List.cons_append, ← hsplit]
      · rcases List.mem_cons.1 hm' with rfl | hm'
        · omega
        · exact hbefore m' hm'

theorem le_supported {l : List (Migration ρ)} (hinc : Increasing l) {m : Migration ρ} (hm : m ∈ l) : m.version ≤ supported l := by
  have hend := List.getLast?_eq_some_getLast (List.ne_nil_of_mem hm)
  obtain ⟨init, hinit⟩ := List.getLast?_eq_some_iff.1 hend
  rw [supported, hend, Option.elim_some]
  generalize l.getLast (List.ne_nil_of_mem hm) = last at hinit
  subst hinit
  rcases List.mem_append.1 hm with hm | hm
  · exact ((List.pairwise_append.1 hinc).2.2 m hm last (List.mem_singleton_self last)).le
  · exact (congrArg Migration.version (List.mem_singleton.1 hm)).le

/-- What is left to do of a list at a version. -/
def Todo (l : List (Migration ρ)) (cur : Int) (todo : List (Migration ρ)) : Prop :=
  ∃ before, l = before ++ todo ∧ ∀ m ∈ before, (m.version : Int) ≤ cur

theorem Todo.mono {l todo : List (Migration ρ)} {cur cur' : Int} (h : Todo l cur todo) (hle : cur ≤ cur') : Todo l cur' todo := by
  obtain ⟨before, hl, hbefore⟩ := h
  exact ⟨before, hl, fun m hm => le_trans (hbefore m hm) hle⟩

theorem Todo.next {l todo : List (Migration ρ)} {cur : Int} {m : Migration ρ} (h : Todo l cur (m :: todo)) (hle : (m.version : Int) ≤ cur) :
    Todo l cur todo := by
  obtain ⟨before, hl, hbefore⟩ := h
  refine ⟨before ++ [m], by rw [hl, List.append_assoc]; rfl, fun m' hm' => ?_⟩
  rcases List.mem_append.1 hm' with hm' | hm'
  · exact hbefore m' hm'
  · exact List.mem_singleton.1 hm' ▸ hle

/-- What a transaction is about to commit. -/
inductive Staged (l : List (Migration ρ)) (db : Database ρ) (todo : List (Migration ρ)) : Option Nat → Database ρ → Prop
  | kept (h : Todo l db.userVersion todo) : Staged l db todo none db
  | applied {m : Migration ρ} {rows : ρ} (h : Todo l db.userVersion (m :: todo)) (hlt : db.userVersion < m.version)
      (hrows : m.apply db.rows = .ok rows) : Staged l db todo (some m.version) ⟨m.version, rows⟩

/-- A run that is under way knows what is left of its list. -/
def Sound (l : List (Migration ρ)) (db : Database ρ) : Run ρ → Prop
  | .idle | .done _ => True
  | .pending todo => (0 ≤ db.userVersion ∧ db.userVersion ≤ supported l) ∧ Todo l db.userVersion todo
  | .begun m todo => (0 ≤ db.userVersion ∧ db.userVersion ≤ supported l) ∧ Todo l db.userVersion (m :: todo)
  | .ready applied db' todo => (0 ≤ db.userVersion ∧ db.userVersion ≤ supported l) ∧ Staged l db todo applied db'

variable {lists : Side → List (Migration ρ)}

/-- The database is the first one with the migrations up to its version applied. -/
structure Applied (migrations : List (Migration ρ)) (db₀ : Database ρ) (db : Database ρ) (log : List Nat) : Prop where
  floor : db₀.userVersion ≤ db.userVersion
  logged : log = (between migrations db₀.userVersion db.userVersion).map (·.version)
  rows : replay db₀.rows (between migrations db₀.userVersion db.userVersion) = .ok db.rows
  top : db.userVersion = db₀.userVersion ∨ ∃ m ∈ migrations, (m.version : Int) = db.userVersion

structure Inv (migrations : List (Migration ρ)) (lists : Side → List (Migration ρ)) (db₀ : Database ρ) (w : World ρ) : Prop where
  applied : Applied migrations db₀ w.db w.log
  sound : ∀ s, Sound (lists s) w.db (w.runs s)
  alone : ∀ s, (w.runs s).locked = true → (w.runs s.other).locked = false

/-- A commit takes the database no further than the other build knows, or that one is not under way. -/
def Waits (lists : Side → List (Migration ρ)) (w : World ρ) (e : Event) : Prop :=
  match w.runs e.side with
  | .ready (some v) _ _ => e.fails = true ∨ (w.runs e.side.other).underway = false ∨ v ≤ supported (lists e.side.other)
  | _ => True

instance (w : World ρ) (e : Event) : Decidable (Waits lists w e) := by
  unfold Waits
  split
  · exact inferInstance
  · exact inferInstance

theorem set_same (w : World ρ) (s : Side) (r : Run ρ) : (w.set s r).runs s = r := if_pos rfl

theorem set_other (w : World ρ) (s : Side) (r : Run ρ) : (w.set s r).runs s.other = w.runs s.other := by
  cases s <;> rfl

theorem other_other (s : Side) : s.other.other = s := by cases s <;> rfl

theorem eq_or_other (s s' : Side) : s' = s ∨ s' = s.other := by cases s <;> cases s' <;> simp [Side.other]

theorem schemaVersion_ok {db : Database ρ} {found : Nat} (h : schemaVersion db = .ok found) : db.userVersion = found := by
  unfold schemaVersion at h
  split_ifs at h with hneg
  have := Except.ok.inj h
  omega

theorem Inv.set {migrations : List (Migration ρ)} {db₀ : Database ρ} {w : World ρ} (h : Inv migrations lists db₀ w) {s : Side}
    {r : Run ρ} (hsound : Sound (lists s) w.db r) (hlock : r.locked = true → (w.runs s.other).locked = false) :
    Inv migrations lists db₀ (w.set s r) := by
  refine ⟨h.applied, fun s' => ?_, fun s' hs' => ?_⟩
  · rcases eq_or_other s s' with rfl | rfl
    · rw [set_same]
      exact hsound
    · rw [set_other]
      exact h.sound _
  · rcases eq_or_other s s' with rfl | rfl
    · rw [set_same] at hs'
      rw [set_other]
      exact hlock hs'
    · rw [set_other] at hs'
      rw [other_other, set_same]
      cases hr : r.locked with
      | false => rfl
      | true => exact absurd hs' (by rw [hlock hr]; decide)

theorem body_staged {l todo : List (Migration ρ)} {m : Migration ρ} {db db' : Database ρ} {applied : Option Nat}
    (hfit : m.version < 2 ^ 31) (htodo : Todo l db.userVersion (m :: todo)) (h : body m db = .ok (applied, db')) :
    Staged l db todo applied db' := by
  unfold body at h
  cases hv : schemaVersion db with
  | error _ =>
    rw [hv] at h
    cases h
  | ok current =>
    have hcur := schemaVersion_ok hv
    rw [hv] at h
    change (if m.version ≤ current then _ else _) = _ at h
    split_ifs at h with hle
    · obtain ⟨rfl, rfl⟩ := Prod.mk.inj (Except.ok.inj h)
      exact .kept (htodo.next (by omega))
    · cases hrows : m.apply db.rows with
      | error _ =>
        rw [hrows] at h
        cases h
      | ok rows =>
        rw [hrows] at h
        obtain ⟨rfl, rfl⟩ := Prod.mk.inj (Except.ok.inj h)
        rw [pragmaUserVersion, if_pos hfit]
        exact .applied htodo (by omega) hrows

theorem Applied.commit {migrations l todo : List (Migration ρ)} {db₀ db : Database ρ} {log : List Nat} {m : Migration ρ} {rows : ρ}
    (h : Applied migrations db₀ db log) (hinc : Increasing migrations) (hpre : l <+: migrations)
    (htodo : Todo l db.userVersion (m :: todo)) (hlt : db.userVersion < m.version) (hrows : m.apply db.rows = .ok rows) :
    Applied migrations db₀ ⟨m.version, rows⟩ (log ++ [m.version]) := by
  obtain ⟨before, hl, hbefore⟩ := htodo
  obtain ⟨more, hmore⟩ := hpre
  have hsplit : migrations = before ++ m :: (todo ++ more) := by rw [← hmore, hl, List.append_assoc, List.cons_append]
  have hnext := between_next hsplit hinc hbefore h.floor hlt
  refine ⟨?_, ?_, ?_, Or.inr ⟨m, ?_, rfl⟩⟩
  · exact le_trans h.floor hlt.le
  · rw [hnext, List.map_append, h.logged]
    rfl
  · have hbase := h.rows
    unfold replay at hbase ⊢
    rw [hnext, List.foldlM_append, hbase]
    show (m.apply db.rows >>= pure) = _
    rw [hrows]
    rfl
  · rw [hsplit]
    exact List.mem_append_right before List.mem_cons_self

theorem inv_step {migrations : List (Migration ρ)} {db₀ : Database ρ} {w : World ρ} {e : Event} (hinc : Increasing migrations)
    (hfit : ∀ m ∈ migrations, m.version < 2 ^ 31) (hpre : ∀ s, lists s <+: migrations) (hw : Waits lists w e)
    (h : Inv migrations lists db₀ w) : Inv migrations lists db₀ (step lists w e) := by
  have hown : Increasing (lists e.side) := hinc.sublist (hpre e.side).sublist
  have hsound := h.sound e.side
  unfold step
  unfold Waits at hw
  cases hrun : w.runs e.side with
  | idle =>
    dsimp only
    split_ifs with hfails
    · exact h.set trivial nofun
    · cases hv : schemaVersion w.db with
      | error err => exact h.set trivial nofun
      | ok found =>
        have hfound := schemaVersion_ok hv
        dsimp only
        split_ifs with hnew
        · exact h.set trivial nofun
        · obtain ⟨before, hsplit, hbefore⟩ := increasing_split hown found
          refine h.set ⟨⟨by omega, by omega⟩, before, hsplit, fun m hm => ?_⟩ nofun
          have := hbefore m hm
          omega
  | pending todo =>
    rw [hrun] at hsound
    cases todo with
    | nil => exact h.set trivial nofun
    | cons m todo =>
      dsimp only
      split_ifs with hfails hlocked
      · exact h.set trivial nofun
      · exact h
      · exact h.set hsound fun _ => Bool.not_eq_true _ ▸ hlocked
  | begun m todo =>
    rw [hrun] at hsound
    have halone := h.alone e.side (by rw [hrun]; rfl)
    dsimp only
    split_ifs with hfails
    · exact h.set trivial nofun
    · cases hb : body m w.db with
      | error err => exact h.set trivial nofun
      | ok r =>
        obtain ⟨applied, db⟩ := r
        have hm : m ∈ migrations := by
          obtain ⟨before, hl, -⟩ := hsound.2
          exact (hpre e.side).subset (hl ▸ List.mem_append_right before List.mem_cons_self)
        exact h.set ⟨hsound.1, body_staged (hfit m hm) hsound.2 hb⟩ fun _ => halone
  | ready applied db todo =>
    rw [hrun] at hsound hw
    have halone := h.alone e.side (by rw [hrun]; rfl)
    dsimp only
    split_ifs with hfails
    · exact h.set trivial nofun
    · obtain ⟨hrange, hstaged⟩ := hsound
      cases hstaged with
      | kept htodo =>
        have hset := h.set (r := .pending todo) ⟨hrange, htodo⟩ nofun
        rw [Option.toList_none, List.append_nil]
        exact hset
      | @applied m rows htodo hlt hrows =>
        have hm : m ∈ lists e.side := by
          obtain ⟨before, hl, -⟩ := htodo
          exact hl ▸ List.mem_append_right before List.mem_cons_self
        have hle := le_supported hown hm
        refine ⟨h.applied.commit hinc (hpre e.side) htodo hlt hrows, fun s => ?_, fun s hs => ?_⟩
        · rcases eq_or_other e.side s with rfl | rfl
          · show Sound (lists e.side) ⟨m.version, rows⟩ ((w.set e.side (.pending todo)).runs e.side)
            rw [set_same]
            exact ⟨⟨Int.natCast_nonneg _, Int.ofNat_le.2 hle⟩, (htodo.mono hlt.le).next (le_refl _)⟩
          · show Sound (lists e.side.other) ⟨m.version, rows⟩ ((w.set e.side (.pending todo)).runs e.side.other)
            rw [set_other]
            have hother := h.sound e.side.other
            cases hro : w.runs e.side.other with
            | idle => trivial
            | done result => trivial
            | begun m' todo' => rw [hro] at halone; cases halone
            | ready applied' db' todo' => rw [hro] at halone; cases halone
            | pending todo' =>
              rw [hro] at hother
              rcases hw with hf | hunder | hv
              · exact absurd hf hfails
              · rw [hro] at hunder
                cases hunder
              · exact ⟨⟨Int.natCast_nonneg _, Int.ofNat_le.2 hv⟩, hother.2.mono hlt.le⟩
        · rcases eq_or_other e.side s with rfl | rfl
          · show ((w.set e.side (.pending todo)).runs e.side.other).locked = false
            rw [set_other]
            exact halone
          · rw [other_other]
            show ((w.set e.side (.pending todo)).runs e.side).locked = false
            rw [set_same]
            rfl
  | done _ => exact h

theorem inv_start (migrations : List (Migration ρ)) (lists : Side → List (Migration ρ)) (db₀ : Database ρ) :
    Inv migrations lists db₀ (start db₀) where
  applied := by
    refine ⟨le_refl _, ?_, ?_, Or.inl rfl⟩
    · show [] = _
      rw [start, between_self]
      rfl
    · show replay db₀.rows (between migrations db₀.userVersion db₀.userVersion) = _
      rw [between_self]
      rfl
  sound _ := trivial
  alone _ h := nomatch h

/-- A run that returns has nothing left to do. -/
theorem returns_supported {l : List (Migration ρ)} {db : Database ρ} (h : Sound l db (.pending [])) : db.userVersion = supported l := by
  obtain ⟨hrange, before, hl, hbefore⟩ := h
  refine le_antisymm hrange.2 ?_
  rw [supported]
  cases hend : l.getLast? with
  | none => exact hrange.1
  | some m =>
    rw [List.append_nil] at hl
    exact hbefore m (hl ▸ List.mem_of_getLast? hend)

theorem step_done {w : World ρ} {e : Event} {result : Except StorageError Unit} (h : (step lists w e).runs e.side = .done result) :
    (step lists w e).db = w.db ∧ (step lists w e).log = w.log ∧
      (result = .ok () → w.runs e.side = .done (.ok ()) ∨ w.runs e.side = .pending []) := by
  unfold step at h ⊢
  cases hrun : w.runs e.side with
  | idle =>
    rw [hrun] at h
    dsimp only at h ⊢
    split_ifs at h ⊢ with hfails
    · exact ⟨rfl, rfl, fun hr => by rw [set_same, hr] at h; cases h⟩
    · cases hv : schemaVersion w.db with
      | error err =>
        rw [hv] at h
        exact ⟨rfl, rfl, fun hr => by rw [set_same, hr] at h; cases h⟩
      | ok found =>
        rw [hv] at h
        dsimp only at h ⊢
        split_ifs at h ⊢ with hnew
        · exact ⟨rfl, rfl, fun hr => by rw [set_same, hr] at h; cases h⟩
        · rw [set_same] at h
          cases h
  | pending todo =>
    rw [hrun] at h
    cases todo with
    | nil => exact ⟨rfl, rfl, fun _ => Or.inr rfl⟩
    | cons m todo =>
      dsimp only at h ⊢
      split_ifs at h ⊢ with hfails hlocked
      · exact ⟨rfl, rfl, fun hr => by rw [set_same, hr] at h; cases h⟩
      · rw [hrun] at h
        cases h
      · rw [set_same] at h
        cases h
  | begun m todo =>
    rw [hrun] at h
    dsimp only at h ⊢
    split_ifs at h ⊢ with hfails
    · exact ⟨rfl, rfl, fun hr => by rw [set_same, hr] at h; cases h⟩
    · cases hb : body m w.db with
      | error err =>
        rw [hb] at h
        exact ⟨rfl, rfl, fun hr => by rw [set_same, hr] at h; cases h⟩
      | ok r =>
        rw [hb] at h
        change (w.set e.side _).runs e.side = _ at h
        rw [set_same] at h
        cases h
  | ready applied db todo =>
    rw [hrun] at h
    dsimp only at h ⊢
    split_ifs at h ⊢ with hfails
    · exact ⟨rfl, rfl, fun hr => by rw [set_same, hr] at h; cases h⟩
    · change (w.set e.side (.pending todo)).runs e.side = _ at h
      rw [set_same] at h
      cases h
  | done result' =>
    rw [hrun] at h
    refine ⟨rfl, rfl, fun hr => ?_⟩
    exact Or.inl (hr ▸ hrun.symm.trans h ▸ rfl)

theorem recorded_last {migrations : List (Migration ρ)} {db₀ db : Database ρ} {log : List Nat} (h : Applied migrations db₀ db log)
    (hinc : Increasing migrations) : db.userVersion = log.getLast?.elim db₀.userVersion fun v => (v : Int) := by
  rw [h.logged]
  by_cases hsame : db.userVersion = db₀.userVersion
  · rw [hsame, between_self]
    rfl
  · obtain ⟨m, hm, hv⟩ := h.top.resolve_left hsame
    obtain ⟨before, rest, hl⟩ := List.append_of_mem hm
    have hfloor := h.floor
    obtain ⟨-, hafter, hcross⟩ := List.pairwise_append.1 (hl ▸ hinc : Increasing (before ++ m :: rest))
    have hlast : between migrations db₀.userVersion db.userVersion = before.filter
        (fun m => decide (db₀.userVersion < m.version) && decide ((m.version : Int) ≤ db.userVersion)) ++ [m] := by
      rw [between, hl, List.filter_append, List.filter_cons_of_pos (by simp only [Bool.and_eq_true, decide_eq_true_eq]; omega)]
      refine congrArg (_ ++ m :: ·) (List.filter_eq_nil_iff.2 fun m' hm' hle => ?_)
      have := (List.pairwise_cons.1 hafter).1 m' hm'
      simp only [Bool.and_eq_true, decide_eq_true_eq] at hle
      omega
    rw [hlast, List.map_append, List.map_singleton, List.getLast?_concat, Option.elim_some]
    exact hv.symm

theorem builds_initial (migrations : List (Migration ρ)) (n : Nat) (s : Side) : builds migrations n s <+: migrations := by
  cases s
  · exact List.prefix_refl _
  · exact List.take_prefix n migrations

/-- What two builds make of a database, in every state of their runs. -/
structure Migrated (migrations : List (Migration ρ)) (n : Nat) (db₀ : Database ρ) (evs : List Event) : Prop where
  logged : let w := run (step (builds migrations n)) (start db₀) evs
    w.log = (between migrations db₀.userVersion w.db.userVersion).map (·.version)
  once : (run (step (builds migrations n)) (start db₀) evs).log.Pairwise (· < ·)
  recorded : let w := run (step (builds migrations n)) (start db₀) evs
    w.db.userVersion = w.log.getLast?.elim db₀.userVersion fun v => (v : Int)
  rows : let w := run (step (builds migrations n)) (start db₀) evs
    replay db₀.rows (between migrations db₀.userVersion w.db.userVersion) = .ok w.db.rows
  failed : ∀ evs₁ e evs₂ err, evs = evs₁ ++ e :: evs₂ →
    let w := run (step (builds migrations n)) (start db₀) evs₁
    (step (builds migrations n) w e).runs e.side = .done (.error err) →
      (step (builds migrations n) w e).db = w.db ∧ (step (builds migrations n) w e).log = w.log
  returned : ∀ evs₁ e evs₂, evs = evs₁ ++ e :: evs₂ →
    let w := run (step (builds migrations n)) (start db₀) evs₁
    w.runs e.side ≠ .done (.ok ()) → (step (builds migrations n) w e).runs e.side = .done (.ok ()) →
      (step (builds migrations n) w e).db.userVersion = supported (builds migrations n e.side)

/-- Where no build is overtaken while it is under way, every migration is applied once and in
order, and a build returns on a database of its own version. -/
theorem migrates_in_step {migrations : List (Migration ρ)} (hinc : Increasing migrations) (hfit : ∀ m ∈ migrations, m.version < 2 ^ 31)
    (n : Nat) (db₀ : Database ρ) {evs : List Event}
    (hm : Meets (step (builds migrations n)) (Waits (builds migrations n)) (start db₀) evs) : Migrated migrations n db₀ evs := by
  have hinv : ∀ {evs : List Event}, Meets (step (builds migrations n)) (Waits (builds migrations n)) (start db₀) evs →
      Inv migrations (builds migrations n) db₀ (run (step (builds migrations n)) (start db₀) evs) := fun hm =>
    Trace.invariant (fun _ _ hw h => inv_step hinc hfit (builds_initial migrations n) hw h) hm (inv_start _ _ db₀)
  have happlied := (hinv hm).applied
  refine ⟨happlied.logged, ?_, recorded_last happlied hinc, happlied.rows, ?_, ?_⟩
  · rw [happlied.logged, List.pairwise_map]
    exact hinc.filter _
  · intro evs₁ e evs₂ err _ w hdone
    exact ⟨(step_done hdone).1, (step_done hdone).2.1⟩
  · intro evs₁ e evs₂ hevs w hbefore hdone
    obtain ⟨hdb, -, hfrom⟩ := step_done hdone
    have hpending := (hfrom rfl).resolve_left hbefore
    have hsound := (hinv (Trace.meets_append.1 (hevs ▸ hm)).1).sound e.side
    rw [hpending] at hsound
    rw [hdb]
    exact returns_supported hsound

namespace Demo

def migrations : List (Migration (List Nat)) := [⟨1, fun rows => .ok (rows ++ [1])⟩, ⟨2, fun rows => .ok (rows ++ [2])⟩]

def next (side : Side) : Event := ⟨side, false⟩

/-- The older build has read version 0 when the newer one migrates to 2. -/
def overtaken : List Event :=
  [next .older] ++ List.replicate 7 (next .newer) ++ List.replicate 4 (next .older)

/-- Both have read version 0. The newer one commits 1 while the older one waits for the lock, waits in its turn while the
older one finds its only step done, and commits 2 when that one has returned. -/
def inTurns : List Event :=
  List.map next ([.newer, .older, .newer, .older, .newer, .newer, .older, .newer] ++ List.replicate 3 Side.older ++
    List.replicate 4 Side.newer)

end Demo

open Demo in
/-- The older build returns on a database of version 2. -/
theorem older_goes_on :
    (run (step (builds migrations 1)) (start ⟨0, []⟩) overtaken).runs .older = .done (.ok ()) ∧
      (run (step (builds migrations 1)) (start ⟨0, []⟩) overtaken).db.userVersion = 2 ∧
      supported (builds migrations 1 .older) = 1 ∧ ¬Migrated migrations 1 ⟨0, []⟩ overtaken := by
  refine ⟨rfl, rfl, rfl, fun h => ?_⟩
  have := h.returned ([next .older] ++ List.replicate 7 (next .newer) ++ List.replicate 3 (next .older)) (next .older) [] rfl nofun rfl
  exact absurd this (by decide)

open Demo in
/-- Where the newer build waits for the older one they are both right. -/
theorem newer_waits :
    (run (step (builds migrations 1)) (start ⟨0, []⟩) inTurns).log = [1, 2] ∧
      (∀ side, (run (step (builds migrations 1)) (start ⟨0, []⟩) inTurns).runs side = .done (.ok ())) ∧
      Migrated migrations 1 ⟨0, []⟩ inTurns := by
  refine ⟨rfl, fun side => by cases side <;> rfl, ?_⟩
  exact migrates_in_step (by unfold Increasing; decide) (by decide) 1 ⟨0, []⟩ (by decide)

end Arveil.Schema
