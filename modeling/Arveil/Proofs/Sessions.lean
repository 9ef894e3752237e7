import Arveil.Lib.Trace
import Arveil.Spec.Sessions

/-! One executor for a profile. The registry's slot follows the session through its
life, as long as no open comes between the fall of the last handle and the mark its drop
makes: there the slot names a session that nobody holds and whose worker lives. A call of
`close` that finds the worker taken by another one returns at once, and does not wait. -/

namespace Arveil.Sessions

/-- The slot names a session that nobody holds any more. -/
def abandoned (s : System) : Bool :=
  match s.slot with
  | some (.opened e) => !(s.executors e).any fun x => 0 < x.handles
  | _ => false

/-- The open is not between the fall of a session's last handle and the closing mark of
its drop, and no close finds the worker taken by another one while commands run. -/
def Orderly (s : System) : Action → Prop
  | .openProfile _ works => works = true → abandoned s = false
  | .advance i => ∀ sh ∈ s.shutdowns i, sh.close = true → sh.pc = .takeWorker →
      ∀ x ∈ s.executors sh.executor, x.worker = true ∨ x.running = 0
  | _ => True

instance (s : System) : DecidablePred (Orderly s)
  | .openProfile _ _ => inferInstanceAs (Decidable (_ → _))
  | .advance i => inferInstanceAs (Decidable (∀ sh ∈ s.shutdowns i, sh.close = true → sh.pc = .takeWorker →
      ∀ x ∈ s.executors sh.executor, x.worker = true ∨ x.running = 0))
  | .clone _ | .drop _ _ | .close _ _ | .submit _ | .finish _ | .workerEnds _ => inferInstanceAs (Decidable True)

theorem slot_of_not_refuses {s : System} (hopen : refuses s = false) (hleft : abandoned s = false) : s.slot = none := by
  rcases hslot : s.slot with _ | (e | _)
  · rfl
  · simp only [refuses, abandoned, hslot, Bool.not_eq_false'] at hopen hleft
    rw [hleft] at hopen
    cases hopen
  · simp [refuses, hslot] at hopen

/-- Nobody has the directory, a session has it, or a shutdown of the session is past
the point where it took the worker. -/
inductive Phase where
  | idle
  | held (e : Nat)
  | shutting (e i : Nat) (pc : Pc)

def Phase.slot : Phase → Option SessionSlot
  | .idle => none
  | .held e => some (.opened e)
  | .shutting e _ pc => if pc = .markClosing then some (.opened e) else some .closing

def Passing (pc : Pc) : Prop := pc = .markClosing ∨ pc = .join ∨ pc = .forget

structure InPhase (s : System) (ph : Phase) : Prop where
  slot : s.slot = ph.slot
  worker : ∀ e x, s.executors e = some x → x.worker = true → ph = .held e
  passing : ∀ i sh, s.shutdowns i = some sh → Passing sh.pc → ph = .shutting sh.executor i sh.pc
  alive : ∀ e x, s.executors e = some x → x.alive = true → ph = .held e ∨ ∃ i pc, ph = .shutting e i pc ∧ pc ≠ .forget
  stands : ∀ e i pc, ph = .shutting e i pc → Passing pc ∧ ∃ sh, s.shutdowns i = some sh ∧ sh.executor = e ∧ sh.pc = pc

structure Inv (s : System) : Prop where
  phase : ∃ ph, InPhase s ph
  ended : ∀ e x, s.executors e = some x → x.alive = false → x.sender = false ∧ x.running = 0
  stopped : ∀ i sh x, s.shutdowns i = some sh → sh.pc ≠ .takeSender → s.executors sh.executor = some x → x.sender = false
  known : ∀ i sh, s.shutdowns i = some sh → ∃ x, s.executors sh.executor = some x
  taken : ∀ e x, s.executors e = some x → x.worker = false → x.sender = false
  closed : ∀ i sh x, s.shutdowns i = some sh → sh.close = true → sh.pc = .returned → s.executors sh.executor = some x →
    x.running = 0

theorem onExecutor_some {s : System} {e e' : Nat} {f : Executor → Executor} {x' : Executor}
    (h : (onExecutor s e f).executors e' = some x') :
    ∃ x, s.executors e' = some x ∧ ((e' = e ∧ x' = f x) ∨ (e' ≠ e ∧ x' = x)) := by
  by_cases he : e' = e
  · subst he
    simp only [onExecutor, Function.update_self, Option.map_eq_some_iff] at h
    obtain ⟨x, hx, rfl⟩ := h
    exact ⟨x, hx, Or.inl ⟨rfl, rfl⟩⟩
  · simp only [onExecutor, Function.update_of_ne he] at h
    exact ⟨x', h, Or.inr ⟨he, rfl⟩⟩

theorem onExecutor_known {s : System} {e e' : Nat} {f : Executor → Executor} (h : ∃ x, s.executors e' = some x) :
    ∃ x, (onExecutor s e f).executors e' = some x := by
  obtain ⟨x, hx⟩ := h
  by_cases he : e' = e
  · subst he
    exact ⟨f x, by simp [onExecutor, hx]⟩
  · exact ⟨x, by simp [onExecutor, he, hx]⟩

theorem setShutdown_some {s : System} {i j : Nat} {sh sh' : Shutdown} (h : (setShutdown s i sh).shutdowns j = some sh') :
    (j = i ∧ sh' = sh) ∨ (j ≠ i ∧ s.shutdowns j = some sh') := by
  by_cases hj : j = i
  · subst hj
    simp only [setShutdown, Function.update_self, Option.some.injEq] at h
    exact Or.inl ⟨rfl, h.symm⟩
  · simp only [setShutdown, Function.update_of_ne hj] at h
    exact Or.inr ⟨hj, h⟩

/-- A change of an executor that neither takes its worker nor revives it, admits nothing
where admission has stopped, and ends it only where nothing is left to run. -/
structure Mild (f : Executor → Executor) : Prop where
  worker : ∀ x, (f x).worker = x.worker
  alive : ∀ x, (f x).alive = true → x.alive = true
  sender : ∀ x, x.sender = false → (f x).sender = false
  running : ∀ x, x.sender = false → x.running = 0 → (f x).running = 0
  ended : ∀ x, (f x).alive = false → x.alive = false ∨ (x.sender = false ∧ x.running = 0)

theorem Inv.mild {s : System} (h : Inv s) (e : Nat) {f : Executor → Executor} (hf : Mild f) : Inv (onExecutor s e f) := by
  obtain ⟨ph, hph⟩ := h.phase
  refine ⟨⟨ph, hph.slot, fun e' x' hx' hw => ?_, hph.passing, fun e' x' hx' ha => ?_, hph.stands⟩, fun e' x' hx' ha => ?_,
    fun i sh x' hi hpc hx' => ?_, fun i sh hi => onExecutor_known (h.known i sh hi), fun e' x' hx' hw => ?_,
    fun i sh x' hi hc hpc hx' => ?_⟩
  · obtain ⟨x, hx, ⟨rfl, rfl⟩ | ⟨-, rfl⟩⟩ := onExecutor_some hx'
    · exact hph.worker e' x hx (hf.worker x ▸ hw)
    · exact hph.worker e' _ hx hw
  · obtain ⟨x, hx, ⟨rfl, rfl⟩ | ⟨-, rfl⟩⟩ := onExecutor_some hx'
    · exact hph.alive e' x hx (hf.alive x ha)
    · exact hph.alive e' _ hx ha
  · obtain ⟨x, hx, ⟨rfl, rfl⟩ | ⟨-, rfl⟩⟩ := onExecutor_some hx'
    · have hdone : x.sender = false ∧ x.running = 0 := (hf.ended x ha).elim (h.ended e' x hx) id
      exact ⟨hf.sender x hdone.1, hf.running x hdone.1 hdone.2⟩
    · exact h.ended e' _ hx ha
  · obtain ⟨x, hx, ⟨-, rfl⟩ | ⟨-, rfl⟩⟩ := onExecutor_some hx'
    · exact hf.sender x (h.stopped i sh x hi hpc hx)
    · exact h.stopped i sh _ hi hpc hx
  · obtain ⟨x, hx, ⟨rfl, rfl⟩ | ⟨-, rfl⟩⟩ := onExecutor_some hx'
    · exact hf.sender x (h.taken e' x hx (hf.worker x ▸ hw))
    · exact h.taken e' _ hx hw
  · obtain ⟨x, hx, ⟨-, rfl⟩ | ⟨-, rfl⟩⟩ := onExecutor_some hx'
    · exact hf.running x (h.stopped i sh x hi (by simp [hpc]) hx) (h.closed i sh x hi hc hpc hx)
    · exact h.closed i sh _ hi hc hpc hx

theorem Inv.moved {s : System} (h : Inv s) {i : Nat} {sh : Shutdown} (hpc : ¬ Passing sh.pc)
    (hold : ∀ sh', s.shutdowns i = some sh' → ¬ Passing sh'.pc) (hx : ∃ x, s.executors sh.executor = some x)
    (hs : sh.pc ≠ .takeSender → ∀ x, s.executors sh.executor = some x → x.sender = false)
    (hc : sh.close = true → sh.pc = .returned → ∀ x, s.executors sh.executor = some x → x.running = 0) :
    Inv (setShutdown s i sh) := by
  obtain ⟨ph, hph⟩ := h.phase
  refine ⟨⟨ph, hph.slot, hph.worker, fun j sh' hj hp => ?_, hph.alive, fun e j pc hp => ?_⟩, h.ended,
    fun j sh' x hj hne hx' => ?_, fun j sh' hj => ?_, h.taken, fun j sh' x hj hcl hret hx' => ?_⟩
  · rcases setShutdown_some hj with ⟨rfl, rfl⟩ | ⟨-, hj⟩
    · exact absurd hp hpc
    · exact hph.passing j sh' hj hp
  · obtain ⟨hpass, sh', hj, he, hpc'⟩ := hph.stands e j pc hp
    refine ⟨hpass, sh', ?_, he, hpc'⟩
    have hne : j ≠ i := by
      rintro rfl
      exact hold sh' hj (hpc' ▸ hpass)
    simpa [setShutdown, hne] using hj
  · rcases setShutdown_some hj with ⟨rfl, rfl⟩ | ⟨-, hj⟩
    · exact hs hne x hx'
    · exact h.stopped j sh' x hj hne hx'
  · rcases setShutdown_some hj with ⟨rfl, rfl⟩ | ⟨-, hj⟩
    · exact hx
    · exact h.known j sh' hj
  · rcases setShutdown_some hj with ⟨rfl, rfl⟩ | ⟨-, hj⟩
    · exact hc hcl hret x hx'
    · exact h.closed j sh' x hj hcl hret hx'

theorem Inv.returned {s : System} (h : Inv s) {i : Nat} {sh : Shutdown} (hi : s.shutdowns i = some sh)
    (hpc : sh.pc = .takeWorker) (hc : sh.close = true → ∀ x, s.executors sh.executor = some x → x.running = 0) :
    Inv (returned s i sh) := by
  have hmoved : Inv (setShutdown s i { sh with pc := .returned }) := by
    refine h.moved (by simp [Passing]) ?_ (h.known i sh hi) (fun _ x hx => h.stopped i sh x hi (by simp [hpc]) hx)
      (fun hcl _ => hc hcl)
    intro sh' hi'
    obtain rfl := Option.some.inj (hi.symm.trans hi')
    simp [Passing, hpc]
  refine hmoved.mild sh.executor ⟨?_, ?_, ?_, ?_, ?_⟩ <;> intro x <;> by_cases hcl : sh.close = true <;> simp +contextual [hcl]

theorem Inv.takesWorker {s : System} (h : Inv s) {i : Nat} {sh : Shutdown} {x : Executor} (hi : s.shutdowns i = some sh)
    (hpc : sh.pc = .takeWorker) (hx : s.executors sh.executor = some x) (hw : x.worker = true) :
    Inv (onExecutor (setShutdown s i { sh with pc := .markClosing }) sh.executor fun x => { x with worker := false }) := by
  obtain ⟨ph, hph⟩ := h.phase
  obtain rfl := hph.worker _ x hx hw
  refine ⟨⟨.shutting sh.executor i .markClosing, ?_, fun e' x' hx' hw' => ?_, fun j sh' hj hp => ?_, fun e' x' hx' ha => ?_,
    fun e' j pc hp => ?_⟩, fun e' x' hx' ha => ?_, fun j sh' x' hj hne hx' => ?_, fun j sh' hj => ?_,
    fun e' x' hx' hw' => ?_, fun j sh' x' hj hcl hret hx' => ?_⟩
  · exact hph.slot
  · obtain ⟨x₁, hx₁, ⟨-, rfl⟩ | ⟨hne, rfl⟩⟩ := onExecutor_some hx'
    · cases hw'
    · exact absurd (Phase.held.inj (hph.worker e' _ hx₁ hw')).symm hne
  · rcases setShutdown_some hj with ⟨rfl, rfl⟩ | ⟨-, hj⟩
    · rfl
    · cases hph.passing j sh' hj hp
  · have halive : ∃ x₁, s.executors e' = some x₁ ∧ x₁.alive = true := by
      obtain ⟨x₁, hx₁, ⟨-, rfl⟩ | ⟨-, rfl⟩⟩ := onExecutor_some hx' <;> exact ⟨_, hx₁, ha⟩
    obtain ⟨x₁, hx₁, ha₁⟩ := halive
    rcases hph.alive e' x₁ hx₁ ha₁ with he | ⟨_, _, hp, _⟩
    · exact Or.inr ⟨i, .markClosing, by rw [Phase.held.inj he], by simp⟩
    · cases hp
  · obtain ⟨rfl, rfl, rfl⟩ := Phase.shutting.inj hp
    exact ⟨Or.inl rfl, { sh with pc := .markClosing }, by simp [onExecutor, setShutdown], rfl, rfl⟩
  · obtain ⟨x₁, hx₁, ⟨-, rfl⟩ | ⟨-, rfl⟩⟩ := onExecutor_some hx'
    · exact h.ended e' x₁ hx₁ ha
    · exact h.ended e' _ hx₁ ha
  · obtain ⟨x₁, hx₁, hx₁'⟩ := onExecutor_some hx'
    have hsender : x'.sender = x₁.sender := by rcases hx₁' with ⟨-, rfl⟩ | ⟨-, rfl⟩ <;> rfl
    rw [hsender]
    rcases setShutdown_some hj with ⟨rfl, rfl⟩ | ⟨-, hj⟩
    · exact h.stopped j sh x₁ hi (by simp [hpc]) hx₁
    · exact h.stopped j sh' x₁ hj hne hx₁
  · refine onExecutor_known ?_
    rcases setShutdown_some hj with ⟨rfl, rfl⟩ | ⟨-, hj⟩
    · exact ⟨x, hx⟩
    · exact h.known j sh' hj
  · obtain ⟨x₁, hx₁, ⟨he, rfl⟩ | ⟨-, rfl⟩⟩ := onExecutor_some hx'
    · subst he
      exact h.stopped i sh x₁ hi (by simp [hpc]) hx₁
    · exact h.taken e' _ hx₁ hw'
  · obtain ⟨x₁, hx₁, hx₁'⟩ := onExecutor_some hx'
    have hrunning : x'.running = x₁.running := by rcases hx₁' with ⟨-, rfl⟩ | ⟨-, rfl⟩ <;> rfl
    rw [hrunning]
    rcases setShutdown_some hj with ⟨rfl, rfl⟩ | ⟨-, hj⟩
    · cases hret
    · exact h.closed j sh' x₁ hj hcl hret hx₁

/-- The shutdown that took the worker goes on: the directory is closing until it forgets
the session, which it reaches only when the worker has ended. -/
theorem Inv.onward {s : System} (h : Inv s) {i : Nat} {sh : Shutdown} {pc : Pc} (hi : s.shutdowns i = some sh)
    (hp : Passing sh.pc) (hpc : pc = .join ∨ pc = .forget)
    (hdead : pc = .forget → ∀ x, s.executors sh.executor = some x → x.alive = false) :
    Inv { setShutdown s i { sh with pc := pc } with slot := some .closing } := by
  obtain ⟨ph, hph⟩ := h.phase
  obtain rfl := hph.passing i sh hi hp
  have hpass : Passing pc := by rcases hpc with rfl | rfl <;> simp [Passing]
  refine ⟨⟨.shutting sh.executor i pc, ?_, fun e' x' hx' hw' => ?_, fun j sh' hj hp' => ?_, fun e' x' hx' ha => ?_,
    fun e' j pc' hp' => ?_⟩, h.ended, fun j sh' x' hj hne hx' => ?_, fun j sh' hj => ?_, h.taken,
    fun j sh' x' hj hcl hret hx' => ?_⟩
  · rcases hpc with rfl | rfl <;> rfl
  · cases hph.worker e' x' hx' hw'
  · rcases setShutdown_some hj with ⟨rfl, rfl⟩ | ⟨hne, hj⟩
    · rfl
    · exact absurd (Phase.shutting.inj (hph.passing j sh' hj hp')).2.1.symm hne
  · rcases hph.alive e' x' hx' ha with he | ⟨j, pc', he, -⟩
    · cases he
    · obtain ⟨rfl, rfl, -⟩ := Phase.shutting.inj he
      refine Or.inr ⟨i, pc, rfl, fun hf => ?_⟩
      exact absurd ha (by simp [hdead hf x' hx'])
  · obtain ⟨rfl, rfl, rfl⟩ := Phase.shutting.inj hp'
    exact ⟨hpass, { sh with pc := pc }, by simp [setShutdown], rfl, rfl⟩
  · rcases setShutdown_some hj with ⟨rfl, rfl⟩ | ⟨-, hj⟩
    · exact h.stopped j sh x' hi (by rcases hp with h' | h' | h' <;> simp [h']) hx'
    · exact h.stopped j sh' x' hj hne hx'
  · rcases setShutdown_some hj with ⟨rfl, rfl⟩ | ⟨-, hj⟩
    · exact h.known j sh hi
    · exact h.known j sh' hj
  · rcases setShutdown_some hj with ⟨rfl, rfl⟩ | ⟨-, hj⟩
    · rcases hpc with rfl | rfl <;> cases hret
    · exact h.closed j sh' x' hj hcl hret hx'

theorem Inv.forgets {s : System} (h : Inv s) {i : Nat} {sh : Shutdown} (hi : s.shutdowns i = some sh)
    (hpc : sh.pc = .forget) : Inv { setShutdown s i { sh with pc := .returned } with slot := none } := by
  obtain ⟨ph, hph⟩ := h.phase
  obtain rfl := hph.passing i sh hi (by simp [Passing, hpc])
  have hdead : ∀ e x, s.executors e = some x → x.alive ≠ true := by
    intro e x hx ha
    rcases hph.alive e x hx ha with he | ⟨_, _, he, hne⟩
    · cases he
    · exact hne ((Phase.shutting.inj he).2.2.symm.trans hpc)
  refine ⟨⟨.idle, rfl, fun e' x' hx' hw' => ?_, fun j sh' hj hp' => ?_, fun e' x' hx' ha => ?_, fun e' j pc' hp' => ?_⟩,
    h.ended, fun j sh' x' hj hne hx' => ?_, fun j sh' hj => ?_, h.taken, fun j sh' x' _ _ _ hx' => ?_⟩
  · cases hph.worker e' x' hx' hw'
  · rcases setShutdown_some hj with ⟨rfl, rfl⟩ | ⟨hne, hj⟩
    · simp [Passing] at hp'
    · exact absurd (Phase.shutting.inj (hph.passing j sh' hj hp')).2.1.symm hne
  · exact absurd ha (hdead e' x' hx')
  · cases hp'
  · rcases setShutdown_some hj with ⟨rfl, rfl⟩ | ⟨-, hj⟩
    · exact h.stopped j sh x' hi (by simp [hpc]) hx'
    · exact h.stopped j sh' x' hj hne hx'
  · rcases setShutdown_some hj with ⟨rfl, rfl⟩ | ⟨-, hj⟩
    · exact h.known j sh hi
    · exact h.known j sh' hj
  · exact (h.ended _ x' hx' (Bool.eq_false_iff.2 (hdead _ x' hx'))).2

theorem Inv.opens {s : System} (h : Inv s) {e : Nat} (hslot : s.slot = none) (hnew : s.executors e = none) :
    Inv { s with
      executors := Function.update s.executors e (some ⟨1, 0, true, true, true, 0⟩)
      slot := some (.opened e) } := by
  obtain ⟨ph, hph⟩ := h.phase
  obtain rfl : ph = .idle := by
    have hs := hph.slot
    rw [hslot] at hs
    cases ph with
    | idle => rfl
    | held e' => cases hs
    | shutting e' i pc => by_cases hpc : pc = .markClosing <;> simp [Phase.slot, hpc] at hs
  have hold : ∀ {e' x'}, Function.update s.executors e (some ⟨1, 0, true, true, true, 0⟩) e' = some x' →
      (e' = e ∧ x' = ⟨1, 0, true, true, true, 0⟩) ∨ (e' ≠ e ∧ s.executors e' = some x') := by
    intro e' x' hx'
    by_cases he : e' = e
    · subst he
      rw [Function.update_self] at hx'
      exact Or.inl ⟨rfl, (Option.some.inj hx').symm⟩
    · rw [Function.update_of_ne he] at hx'
      exact Or.inr ⟨he, hx'⟩
  have hknown : ∀ j sh, s.shutdowns j = some sh → sh.executor ≠ e := by
    rintro j sh hj rfl
    obtain ⟨x, hx⟩ := h.known j sh hj
    exact absurd (hnew.symm.trans hx) (by simp)
  refine ⟨⟨.held e, rfl, fun e' x' hx' hw' => ?_, fun j sh' hj hp' => ?_, fun e' x' hx' ha => ?_, fun e' j pc' hp' => ?_⟩,
    fun e' x' hx' ha => ?_, fun j sh' x' hj hne hx' => ?_, fun j sh' hj => ?_, fun e' x' hx' hw' => ?_,
    fun j sh' x' hj hcl hret hx' => ?_⟩
  · rcases hold hx' with ⟨rfl, -⟩ | ⟨-, hx⟩
    · rfl
    · cases hph.worker e' x' hx hw'
  · cases hph.passing j sh' hj hp'
  · rcases hold hx' with ⟨rfl, -⟩ | ⟨-, hx⟩
    · exact Or.inl rfl
    · rcases hph.alive e' x' hx ha with hp | ⟨_, _, hp, _⟩ <;> cases hp
  · cases hp'
  · rcases hold hx' with ⟨-, rfl⟩ | ⟨-, hx⟩
    · cases ha
    · exact h.ended e' x' hx ha
  · rcases hold hx' with ⟨he, -⟩ | ⟨-, hx⟩
    · exact absurd he (hknown j sh' hj)
    · exact h.stopped j sh' x' hj hne hx
  · obtain ⟨x, hx⟩ := h.known j sh' hj
    exact ⟨x, by simp [Function.update_of_ne (hknown j sh' hj), hx]⟩
  · rcases hold hx' with ⟨-, rfl⟩ | ⟨-, hx⟩
    · cases hw'
    · exact h.taken e' x' hx hw'
  · rcases hold hx' with ⟨he, -⟩ | ⟨-, hx⟩
    · exact absurd he (hknown j sh' hj)
    · exact h.closed j sh' x' hj hcl hret hx

theorem advance_inv {s : System} (h : Inv s) {i : Nat} {sh : Shutdown} {x : Executor} (hi : s.shutdowns i = some sh)
    (hx : s.executors sh.executor = some x) (ho : Orderly s (.advance i)) : Inv (advance s i sh x) := by
  unfold advance
  split
  next hpc =>
    have hstop : Inv (onExecutor s sh.executor fun x => { x with sender := false }) := by
      exact h.mild sh.executor ⟨fun _ => rfl, fun _ ha => ha, fun _ _ => rfl, fun _ _ hr => hr, fun _ ha => Or.inl ha⟩
    have hmoves : Inv (setShutdown (onExecutor s sh.executor fun x => { x with sender := false }) i
        { sh with pc := .takeWorker }) := by
      refine hstop.moved (by simp [Passing]) (fun sh' hi' => ?_) (onExecutor_known ⟨x, hx⟩) (fun _ x' hx' => ?_) (by simp)
      · obtain rfl := Option.some.inj (hi.symm.trans hi')
        simp [Passing, hpc]
      · obtain ⟨x₁, -, ⟨-, rfl⟩ | ⟨hne, -⟩⟩ := onExecutor_some hx'
        · rfl
        · exact absurd rfl hne
    exact hmoves
  next hpc =>
    split
    next hw => exact h.takesWorker hi hpc hx hw
    next hw =>
      refine h.returned hi hpc fun hc x' hx' => ?_
      obtain rfl := Option.some.inj (hx.symm.trans hx')
      exact (ho sh hi hc hpc x hx).resolve_left hw
  next hpc =>
    obtain ⟨ph, hph⟩ := h.phase
    have hslot : s.slot = some (.opened sh.executor) := by
      rw [hph.slot, hph.passing i sh hi (Or.inl hpc), hpc]
      rfl
    rw [hslot]
    exact h.onward hi (Or.inl hpc) (Or.inl rfl) (by simp)
  next hpc =>
    split
    next => exact h
    next ha =>
      obtain ⟨ph, hph⟩ := h.phase
      have hslot : s.slot = some .closing := by
        rw [hph.slot, hph.passing i sh hi (Or.inr (Or.inl hpc)), hpc]
        rfl
      have hon : Inv { setShutdown s i { sh with pc := .forget } with slot := some .closing } := by
        refine h.onward hi (Or.inr (Or.inl hpc)) (Or.inr rfl) fun _ x' hx' => ?_
        obtain rfl := Option.some.inj (hx.symm.trans hx')
        exact Bool.eq_false_iff.2 ha
      rw [← hslot] at hon
      exact hon
  next hpc =>
    refine (h.forgets hi hpc).mild sh.executor ⟨?_, ?_, ?_, ?_, ?_⟩ <;> intro x <;>
      by_cases hcl : sh.close = true <;> simp +contextual [hcl]
  next => exact h

theorem step_inv {s : System} {a : Action} (ho : Orderly s a) (h : Inv s) : Inv (step s a) := by
  cases a with
  | openProfile e works =>
    simp only [step]
    split
    next => exact h
    next hgo =>
      simp only [Bool.or_eq_true, not_or, Option.not_isSome_iff_eq_none] at hgo
      obtain ⟨⟨hfree, hworks⟩, hnew⟩ := hgo
      exact h.opens (slot_of_not_refuses (Bool.eq_false_iff.2 hfree) (ho (by simpa using hworks))) hnew
  | clone e =>
    refine h.mild e ⟨?_, ?_, ?_, ?_, ?_⟩ <;> intro x <;> by_cases hx : 0 < x.handles <;> simp +contextual [hx]
  | drop e i =>
    simp only [step]
    split
    next => exact h
    next x hx =>
      split
      next => exact h.mild e ⟨fun _ => rfl, fun _ ha => ha, fun _ hs => hs, fun _ _ hr => hr, fun _ ha => Or.inl ha⟩
      next =>
        split
        next hlast =>
          have hbegun : Inv (setShutdown s i ⟨e, false, .takeSender⟩) :=
            h.moved (by simp [Passing]) (by simp [hlast.2.2]) ⟨x, hx⟩ (by simp) (by simp)
          exact hbegun.mild e ⟨fun _ => rfl, fun _ ha => ha, fun _ hs => hs, fun _ _ hr => hr, fun _ ha => Or.inl ha⟩
        next => exact h
  | close e i =>
    simp only [step]
    split
    next => exact h
    next x hx =>
      split
      next hcalls =>
        have hbegun : Inv (setShutdown s i ⟨e, true, .takeSender⟩) :=
          h.moved (by simp [Passing]) (by simp [hcalls.2]) ⟨x, hx⟩ (by simp) (by simp)
        exact hbegun.mild e ⟨fun _ => rfl, fun _ ha => ha, fun _ hs => hs, fun _ _ hr => hr, fun _ ha => Or.inl ha⟩
      next => exact h
  | advance i =>
    simp only [step]
    split
    next => exact h
    next sh hi =>
      split
      next => exact h
      next x hx => exact advance_inv h hi hx ho
  | submit e =>
    refine h.mild e ⟨?_, ?_, ?_, ?_, ?_⟩ <;> intro x <;> by_cases hx : 0 < x.handles ∧ x.sender = true <;>
      simp +contextual [hx]
  | finish e =>
    exact h.mild e ⟨fun _ => rfl, fun _ ha => ha, fun _ hs => hs, fun x _ hr => by simp [hr], fun _ ha => Or.inl ha⟩
  | workerEnds e =>
    refine h.mild e ⟨?_, ?_, ?_, ?_, ?_⟩ <;> intro x <;> split <;> simp_all

theorem start_inv : Inv start :=
  ⟨⟨.idle, rfl, by simp [start], by simp [start], by simp [start], by simp⟩, by simp [start], by simp [start],
    by simp [start], by simp [start], by simp [start]⟩

theorem run_inv {acts : List Action} (h : Trace.Meets step Orderly start acts) : Inv (Trace.run step start acts) :=
  Trace.invariant (fun _ _ ho hi => step_inv ho hi) h start_inv

theorem Inv.one_worker {s : System} (h : Inv s) {e e' : Nat} {x x' : Executor} (hx : s.executors e = some x)
    (hx' : s.executors e' = some x') (ha : x.alive = true) (ha' : x'.alive = true) : e = e' := by
  obtain ⟨ph, hph⟩ := h.phase
  rcases hph.alive e x hx ha with rfl | ⟨i, pc, rfl, -⟩
  · rcases hph.alive e' x' hx' ha' with he | ⟨_, _, he, -⟩
    · exact Phase.held.inj he
    · cases he
  · rcases hph.alive e' x' hx' ha' with he | ⟨_, _, he, -⟩
    · cases he
    · exact (Phase.shutting.inj he).1

theorem Inv.alone {s : System} (h : Inv s) (hslot : s.slot = none) {e : Nat} {x : Executor}
    (hx : s.executors e = some x) : x.alive = false := by
  obtain ⟨ph, hph⟩ := h.phase
  have hphase := hph.slot
  rw [hslot] at hphase
  cases halive : x.alive with
  | false => rfl
  | true =>
    rcases hph.alive e x hx halive with rfl | ⟨i, pc, rfl, -⟩
    · cases hphase
    · by_cases hpc : pc = .markClosing <;> simp [Phase.slot, hpc] at hphase

theorem Inv.open_found {s : System} (h : Inv s) {e : Nat} {x : Executor} (hx : s.executors e = some x)
    (hpos : 0 < x.handles) (hs : x.sender = true) : refuses s = true := by
  obtain ⟨ph, hph⟩ := h.phase
  have hw : x.worker = true := by
    cases hw : x.worker with
    | false => exact absurd (h.taken e x hx hw) (by simp [hs])
    | true => rfl
  have hslot : s.slot = some (.opened e) := by
    rw [hph.slot, hph.worker e x hx hw]
    rfl
  simp [refuses, hslot, hx, hpos]

/-- In every state of a run in order: one worker at most lives, an open that succeeds finds
none alive, every open finds a session that is open, and when a close has returned nothing
of its session runs. -/
theorem one_executor_per_profile {acts : List Action} (h : Trace.Meets step Orderly start acts) :
    let s := Trace.run step start acts
    (∀ e e' x x', s.executors e = some x → s.executors e' = some x' → x.alive = true → x'.alive = true → e = e') ∧
    (∀ e works, Orderly s (.openProfile e works) → s.executors e = none →
      ((step s (.openProfile e works)).executors e).isSome = true → ∀ e' x, s.executors e' = some x → x.alive = false) ∧
    (∀ e x, s.executors e = some x → 0 < x.handles → x.sender = true →
      refuses s = true ∧ ∀ e' works, step s (.openProfile e' works) = s) ∧
    (∀ i sh, s.shutdowns i = some sh → sh.close = true → sh.pc = .returned →
      ∃ x, s.executors sh.executor = some x ∧ x.running = 0) := by
  intro s
  have hinv : Inv s := run_inv h
  refine ⟨fun e e' x x' hx hx' => hinv.one_worker hx hx', fun e works ho hnew hopened e' x hx => ?_,
    fun e x hx hpos hs => ?_, fun i sh hi hc hpc => ?_⟩
  · have hgo : (refuses s || !works || (s.executors e).isSome) = false := by
      cases hgo : (refuses s || !works || (s.executors e).isSome) with
      | false => rfl
      | true => rw [step, if_pos hgo, hnew] at hopened; cases hopened
    simp only [Bool.or_eq_false_iff, Bool.not_eq_false'] at hgo
    exact hinv.alone (slot_of_not_refuses hgo.1.1 (ho hgo.1.2)) hx
  · have hfound : refuses s = true := hinv.open_found hx hpos hs
    exact ⟨hfound, fun e' works => by simp [step, hfound]⟩
  · obtain ⟨x, hx⟩ := hinv.known i sh hi
    exact ⟨x, hx, hinv.closed i sh x hi hc hpc hx⟩

/-- Open, work, close from two handles one after the other, and open again. -/
def sessionInOrder : List Action :=
  [.openProfile 0 true, .clone 0, .submit 0, .close 0 0, .advance 0, .advance 0, .advance 0, .finish 0, .workerEnds 0,
    .advance 0, .advance 0, .close 0 1, .advance 1, .advance 1]

theorem reopened_after_close :
    Trace.Meets step Orderly start sessionInOrder ∧
    ((step (Trace.run step start sessionInOrder) (.openProfile 1 true)).executors 1).isSome = true ∧
    ∀ e' x, (Trace.run step start sessionInOrder).executors e' = some x → x.alive = false := by
  have hm : Trace.Meets step Orderly start sessionInOrder := by
    refine ⟨?_, ?_, ?_, ?_, ?_, ?_, ?_, ?_, ?_, ?_, ?_, ?_, ?_, ?_, trivial⟩ <;> decide
  exact ⟨hm, by decide, (one_executor_per_profile hm).2.1 1 true (by decide) (by decide) (by decide)⟩

/-- The last handle falls, and another open comes before the drop has marked the directory. -/
def crossedOpen : System :=
  Trace.run step start [.openProfile 0 true, .submit 0, .drop 0 0, .openProfile 1 true]

/-- The first close waits for the worker when the second one finds it taken. -/
def secondClose : System :=
  Trace.run step start [.openProfile 0 true, .submit 0, .close 0 0, .advance 0, .advance 0, .close 0 1, .advance 1,
    .advance 1]

theorem two_workers_of_one_profile :
    ((crossedOpen.executors 0).any (·.alive) = true ∧ (crossedOpen.executors 1).any (·.alive) = true) ∧
    secondClose.shutdowns 1 = some ⟨0, true, .returned⟩ ∧ (secondClose.executors 0).map (·.running) = some 1 := by
  decide

end Arveil.Sessions
