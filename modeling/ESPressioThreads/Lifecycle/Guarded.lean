import Mathlib.Algebra.BigOperators.Group.Finset.Piecewise
import ESPressioThreads.Lifecycle.Completion
import ESPressioThreads.Lifecycle.Mutex
/-!
# Exits under the mutex of the dispatcher

The logged lifecycle in which a call has to lock the mutex of the dispatcher
where it needs it. Without the mutex its runs are runs of the lifecycle. While
no `Shutdown` has captured its task, and whoever holds the mutex can unlock it,
the exit of a worker still comes to its end: the holder goes on first.
-/

namespace ESPressio.Lifecycle

open Transition ESPressio.Thread

structure Guarded where
  world : World
  mutex : Mutex

inductive GuardedAction
  | lifecycle (a : Action)
  | mutex (b : MutexAction)
  deriving DecidableEq, Repr

def stepGuarded (c : Guarded) : GuardedAction → Option Guarded
  | .lifecycle a =>
    if c.mutex.admits c.world a then (step c.world a).map fun w => ⟨w, c.mutex.after a⟩ else none
  | .mutex b => (stepMutex c.world c.mutex b).map fun m => { c with mutex := m }

def Guarded.event (c : Guarded) : GuardedAction → Option Event
  | .lifecycle a => c.world.event a
  | .mutex _ => none

/-- The lifecycle of a thread with the mutex, and the log of its workers' exits. -/
def guardedSystem : System (Guarded × List Event) GuardedAction :=
  System.logged { init := fun c => (system false).init c.world ∧ c.mutex = .free, step := stepGuarded } Guarded.event

/-- Calls of `Initialize` and `Start` do not overlap, `Send` succeeds, and there
is room in the queue. -/
def AssumedGuarded (c : Guarded) : GuardedAction → Prop
  | .lifecycle a => Assumed c.world a
  | .mutex b => b ≠ .setFull true

variable {x y : Guarded × List Event} {a : Action} {b : MutexAction} {p q : TaskId} {g : Gen} {T : Finset TaskId}
  {w : World} {f : Frame}

theorem guarded_lifecycle : guardedSystem.step x (.lifecycle a) = some y ↔
    x.1.mutex.admits x.1.world a = true ∧ loggedSystem.step (x.1.world, x.2) a = some (y.1.world, y.2) ∧
      y.1.mutex = x.1.mutex.after a := by
  obtain ⟨⟨w', m'⟩, log'⟩ := y
  simp only [guardedSystem, Transition.System.logged_step, loggedSystem_step, stepGuarded, Guarded.event]
  constructor
  · rintro ⟨hs, hl⟩
    split at hs
    · rename_i ha
      obtain ⟨w, hw, he⟩ := Option.map_eq_some_iff.1 hs
      cases he
      exact ⟨ha, ⟨hw, hl⟩, rfl⟩
    · cases hs
  · rintro ⟨ha, ⟨hs, hl⟩, rfl⟩
    exact ⟨by rw [if_pos ha, hs]; rfl, hl⟩

theorem guarded_mutex : guardedSystem.step x (.mutex b) = some y ↔
    y.1.world = x.1.world ∧ stepMutex x.1.world x.1.mutex b = some y.1.mutex ∧ y.2 = x.2 := by
  obtain ⟨⟨w', m'⟩, log'⟩ := y
  simp only [guardedSystem, Transition.System.logged_step, stepGuarded, Guarded.event, Option.map_eq_some_iff,
    Option.toList_none, List.append_nil]
  constructor
  · rintro ⟨⟨m, hm, he⟩, hl⟩
    cases he
    exact ⟨rfl, hm, hl⟩
  · rintro ⟨rfl, hm, hl⟩
    exact ⟨⟨_, hm, rfl⟩, hl⟩

/-! ## Without the mutex -/

/-- What every run keeps of the mutex. -/
structure GuardedInv (c : Guarded) : Prop where
  mutex : MutexInv c.world c.mutex
  room : c.mutex.full = false

theorem stepMutex_room {w : World} {m m' : Mutex} (h : stepMutex w m b = some m') (hb : b ≠ .setFull true)
    (hm : m.full = false) : m'.full = false := by
  cases b with
  | setFull full =>
    cases h
    cases full
    · rfl
    · exact absurd rfl hb
  | lock p =>
    simp only [stepMutex] at h
    split at h
    · obtain ⟨phase, -, rfl⟩ := Option.map_eq_some_iff.1 h
      exact hm
    · cases h
  | unlock p =>
    simp only [stepMutex] at h
    split at h
    · obtain ⟨phase, -, rfl⟩ := Option.map_eq_some_iff.1 h
      exact hm
    · cases h
  | lockOther n | unlockOther n =>
    simp only [stepMutex] at h
    split at h <;> cases h
    exact hm
  | stopOther n => cases h; exact hm

theorem after_room {m : Mutex} (hm : m.full = false) : (m.after a).full = false := by
  cases a with
  | call => exact hm
  | step p ok =>
    simp only [Mutex.after]
    split <;> exact hm

/-- A step is one of the lifecycle, or is not seen there. -/
theorem GuardedInv.step {b : GuardedAction} (h : GuardedInv x.1) (hc : AssumedGuarded x.1 b)
    (hs : guardedSystem.step x b = some y) : GuardedInv y.1 ∧
      ((y.1.world, y.2) = (x.1.world, x.2) ∨ ∃ a, Assumed x.1.world a ∧
        loggedSystem.step (x.1.world, x.2) a = some (y.1.world, y.2)) := by
  cases b with
  | lifecycle a =>
    obtain ⟨ha, hl, hm⟩ := guarded_lifecycle.1 hs
    refine ⟨⟨?_, ?_⟩, .inr ⟨a, hc, hl⟩⟩
    · rw [hm]
      exact h.mutex.step ha (loggedSystem_step.1 hl).1
    · rw [hm]
      exact after_room h.room
  | mutex b =>
    obtain ⟨hw, hm, hl⟩ := guarded_mutex.1 hs
    refine ⟨⟨?_, stepMutex_room hm hc h.room⟩, .inl (by rw [hw, hl])⟩
    rw [hw]
    exact h.mutex.mutex hm

theorem guarded_reachable (h : guardedSystem.ReachableWhen (fun x b => AssumedGuarded x.1 b) x) :
    loggedSystem.ReachableWhen (fun x a => Assumed x.1 a) (x.1.world, x.2) ∧ GuardedInv x.1 := by
  refine h.map (B := fun x a => Assumed x.1 a) (f := fun x => (x.1.world, x.2)) (I := fun x => GuardedInv x.1)
    (fun x hx => ?_) fun _ _ _ hx hc hs => hx.step hc hs
  obtain ⟨⟨hw, hm⟩, hl⟩ := hx
  refine ⟨⟨hw, hl⟩, ?_, by rw [hm]; rfl⟩
  rw [hm]
  exact mutexInv_free _

theorem Pc.guard_advances {pc : Pc} {s : Shared} (h : pc.guard ≠ none) (hc : ∀ t, pc ≠ .cleanUp t) :
    pc.transition = none ∧ pc.advances s = true := by
  have hinit : ∀ t : InitializePc, t.guard ≠ none → t.transition = none ∧ t ≠ .lockConfiguration := by
    intro t ht
    cases t <;> first | exact absurd rfl ht | exact ⟨rfl, by rintro ⟨⟩⟩
  cases pc with
  | initializeThread t =>
    refine ⟨(hinit t h).1, ?_⟩
    cases t <;> first | rfl | exact absurd rfl (hinit .lockConfiguration h).2
  | start t =>
    cases t with
    | initializeThread t =>
      refine ⟨(hinit t h).1, ?_⟩
      cases t <;> first | rfl | exact absurd rfl (hinit .lockConfiguration h).2
    | _ => exact absurd rfl h
  | shutdown t => cases t <;> first | exact absurd rfl h | exact ⟨rfl, rfl⟩
  | worker g t => cases t <;> first | exact absurd rfl h | exact ⟨rfl, rfl⟩
  | cleanUp t => exact absurd rfl (hc t)
  | _ => exact absurd rfl h

/-- What is done under the mutex touches neither the transition lock nor tasks. -/
theorem exec_guarded {pc : Pc} {s s' : Shared} {ok : Bool} {next : Next Pc} (h : exec s p pc ok = some (s', next))
    (hg : pc.guard ≠ none) : s'.created = s.created ∧ s'.killed = s.killed := by
  cases pc with
  | initializeThread t =>
    cases t
    case ensureDispatcher => cases h; exact ⟨rfl, rfl⟩
    case send =>
      simp only [exec, execInitialize] at h
      split at h <;> cases h <;> exact ⟨rfl, rfl⟩
    all_goals exact absurd rfl hg
  | start t =>
    cases t with
    | initializeThread t =>
      cases t
      case ensureDispatcher => cases h; exact ⟨rfl, rfl⟩
      case send =>
        simp only [exec, execStart, execInitialize] at h
        split at h <;> cases h <;> exact ⟨rfl, rfl⟩
      all_goals exact absurd rfl hg
    | _ => exact absurd rfl hg
  | shutdown t =>
    cases t
    case isCurrentTask => cases h; exact ⟨rfl, rfl⟩
    all_goals exact absurd rfl hg
  | worker g t =>
    cases t
    case send =>
      simp only [exec, execWorker] at h
      split at h <;> cases h <;> exact ⟨rfl, rfl⟩
    all_goals exact absurd rfl hg
  | cleanUp t =>
    cases t
    case isCurrentTask => cases h; exact ⟨rfl, rfl⟩
    all_goals exact absurd rfl hg
  | _ => exact absurd rfl hg

/-- A task that has the mutex makes its step. -/
theorem guard_step (hoks : CallsOk w) (hu : Unmanaged w) (hrun : w.runnable p = true) (hg : w.guard p ≠ none) :
    ∃ w', step w (.step p true) = some w' ∧ w'.shared.transitionOwner = w.shared.transitionOwner ∧
      (∀ q, w'.runnable q = w.runnable q) ∧ w'.work p < w.work p ∧ ∀ q, q ≠ p → w'.work q = w.work q := by
  obtain ⟨f, htop, hpc⟩ : ∃ f, w.top p = some f ∧ f.pc.guard ≠ none := by
    cases htop : w.top p with
    | none => exact absurd (by simp [World.guard, htop]) hg
    | some f => exact ⟨f, rfl, by simpa [World.guard, htop] using hg⟩
  obtain ⟨n, hd, hf⟩ := World.call_of_top htop
  obtain ⟨hno, hadvances⟩ := Pc.guard_advances (s := w.shared) hpc (hu.calls _ f hf)
  have htr : f.transition = none := (hoks _ f hf).no_transition hno
  obtain ⟨w', hs, hlt, hothers⟩ :=
    World.Advances.step ⟨hd, hf, hrun, fun _ _ => hadvances⟩ hoks hu fun h => absurd htr h
  obtain ⟨-, m, f₁, f', -, htop₁, -, hstep, -⟩ := step_last hs
  cases htop.symm.trans htop₁
  have hex : ∃ next, exec w.shared p f.pc true = some (w'.shared, next) := by
    generalize w'.shared = s' at hstep
    cases hstep with
    | inTransition tr tr' s' htr' => cases htr.symm.trans htr'
    | transitionDone tr s' stored threw htr' => cases htr.symm.trans htr'
    | transitionStart expected newState htr' hpc' => cases hno.symm.trans hpc'
    | exec s' next htr' hpc' hex => exact ⟨next, hex⟩
  obtain ⟨next, hex⟩ := hex
  obtain ⟨hcreated, hkilled⟩ := exec_guarded hex hpc
  refine ⟨w', hs, congrArg Prod.fst (exec_lock hex), fun q => ?_, hlt, hothers⟩
  cases q with
  | worker g => simp only [World.runnable, hcreated, hkilled]
  | app | dispatcher => rfl

/-! ## The exit is brought to its end -/

/-- Steps under the mutex that are still to be made by its holder, unlocking included. -/
def Mutex.holding (m : Mutex) : Nat :=
  match m.holder with
  | none => 0
  | some (.task p) => if m.phase p = .inside then 2 else 1
  | some (.other _) => 1

/-- What the tasks of `T`, and the holder of the mutex, still have to do. -/
def Guarded.rest (T : Finset TaskId) (c : Guarded) : Nat :=
  20 * (∑ q ∈ T, c.world.work q) + 3 * (∑ q ∈ T, (c.mutex.phase q).rank) + c.mutex.holding

/-- The worker is in its exit, and whoever holds the mutex can unlock it. -/
structure GuardedExiting (T : Finset TaskId) (g : Gen) (x : Guarded × List Event) : Prop where
  exiting : Exiting T g (x.1.world, x.2)
  inv : GuardedInv x.1
  kept : x.1.mutex.Kept x.1.world

/-- The ranks of the phases when one of them changes. -/
theorem sum_rank_update (p : TaskId) (T : Finset TaskId) (phases : TaskId → MutexPhase) (phase : MutexPhase) :
    (p ∈ T → ∑ q ∈ T, (Function.update phases p phase q).rank + (phases p).rank =
      ∑ q ∈ T, (phases q).rank + phase.rank) ∧
    (p ∉ T → ∑ q ∈ T, (Function.update phases p phase q).rank = ∑ q ∈ T, (phases q).rank) := by
  have hupdate : (fun q => (Function.update phases p phase q).rank) =
      Function.update (fun q => (phases q).rank) p phase.rank := by
    funext q
    by_cases hq : q = p
    · subst hq
      simp
    · simp [hq]
  rw [hupdate]
  refine ⟨fun hp => ?_, fun hp => Finset.sum_update_of_notMem hp _ _⟩
  rw [Finset.sum_update_of_mem hp, ← Finset.sum_sdiff (Finset.singleton_subset_iff.2 hp), Finset.sum_singleton]
  omega

/-- The holder unlocks the mutex, and has less to do. -/
theorem GuardedExiting.unlocked {m : Mutex} (h : GuardedExiting T g x) (hb : b ≠ .setFull true)
    (hm : stepMutex x.1.world x.1.mutex b = some m) (hnone : m.holder = none) (hheld : x.1.mutex.holder ≠ none)
    (hrank : ∑ q ∈ T, (m.phase q).rank ≤ ∑ q ∈ T, (x.1.mutex.phase q).rank) :
    ∃ y, guardedSystem.step x (.mutex b) = some y ∧ GuardedExiting T g y ∧ y.1.rest T < x.1.rest T := by
  have hs : guardedSystem.step x (.mutex b) = some (⟨x.1.world, m⟩, x.2) := guarded_mutex.2 ⟨rfl, hm, rfl⟩
  have hkept : m.Kept x.1.world := fun z hz => by cases hnone.symm.trans hz
  refine ⟨_, hs, ⟨h.exiting, (h.inv.step (b := .mutex b) hb hs).1, hkept⟩, ?_⟩
  have hfree : m.holding = 0 := by simp [Mutex.holding, hnone]
  have hpos : 0 < x.1.mutex.holding := by
    unfold Mutex.holding
    cases hh : x.1.mutex.holder with
    | none => exact absurd hh hheld
    | some z =>
      cases z with
      | other n => exact Nat.one_pos
      | task p => dsimp only; split <;> omega
  simp only [Guarded.rest, hfree]
  omega

/-- The holder makes its step under the mutex. -/
theorem GuardedExiting.inside (h : GuardedExiting T g x) (hnot : history g x.2 ≠ exitProtocol g)
    (hh : x.1.mutex.holder = some (.task p)) (hp : x.1.mutex.phase p = .inside) :
    ∃ a y, AssumedGuarded x.1 (.lifecycle a) ∧ guardedSystem.step x (.lifecycle a) = some y ∧
      (history g y.2 = exitProtocol g ∨ (GuardedExiting T g y ∧ y.1.rest T < x.1.rest T)) := by
  obtain ⟨st, hr⟩ := h.exiting.inv
  have hg := h.inv.mutex.inside p hp
  obtain ⟨w', hs, howner, hrun, hlt, hothers⟩ := guard_step hr.exit.calls hr.exit.unmanaged (h.kept _ hh) hg
  have hadmits : x.1.mutex.admits x.1.world (.step p true) = true := by
    cases hk : x.1.world.guard p with
    | none => exact absurd hk hg
    | some k => cases k <;> simp [Mutex.admits, hk, hp, h.inv.room]
  have hafter : x.1.mutex.after (.step p true) =
      { x.1.mutex with phase := Function.update x.1.mutex.phase p .leaving } := if_pos hp
  let y : Guarded × List Event :=
    (⟨w', x.1.mutex.after (.step p true)⟩, x.2 ++ (x.1.world.event (.step p true)).toList)
  have hlogged : loggedSystem.step (x.1.world, x.2) (.step p true) = some (y.1.world, y.2) :=
    loggedSystem_step.2 ⟨hs, rfl⟩
  have hstep : guardedSystem.step x (.lifecycle (.step p true)) = some y :=
    guarded_lifecycle.2 ⟨hadmits, hlogged, rfl⟩
  refine ⟨.step p true, y, assumed_step _ _, hstep, .inr ⟨⟨?_, ?_, ?_⟩, ?_⟩⟩
  · exact h.exiting.step hnot (.inr howner) hlogged
  · exact (h.inv.step (b := .lifecycle (.step p true)) (assumed_step _ _) hstep).1
  · intro z hz
    simp only [y, hafter, hh, Option.some.injEq] at hz
    subst hz
    exact (hrun p).trans (h.kept _ hh)
  -- The work that is done outweighs the unlock that is left.
  · have hholding : y.1.mutex.holding = 1 ∧ x.1.mutex.holding = 2 := by
      simp [y, hafter, Mutex.holding, hh, hp]
    have hphase : (MutexPhase.leaving).rank = 5 ∧ (x.1.mutex.phase p).rank = 1 := by
      simp [hp, MutexPhase.rank]
    have hranks := sum_rank_update p T x.1.mutex.phase .leaving
    have hwork : y.1.world = w' := rfl
    have hphases : y.1.mutex.phase = Function.update x.1.mutex.phase p .leaving := by simp only [y, hafter]
    simp only [Guarded.rest, hwork, hphases]
    by_cases hT : p ∈ T
    · have := hranks.1 hT
      have : ∑ q ∈ T, w'.work q < ∑ q ∈ T, x.1.world.work q := sum_work_lt hT hlt hothers
      omega
    · have := hranks.2 hT
      have : ∑ q ∈ T, w'.work q = ∑ q ∈ T, x.1.world.work q :=
        Finset.sum_congr rfl fun q hq => hothers q fun he => hT (he ▸ hq)
      omega

/-- A task of `T` comes to the mutex, which is free. -/
theorem GuardedExiting.locked {k : Guard} (h : GuardedExiting T g x) (hp : p ∈ T) (hh : x.1.mutex.holder = none)
    (hk : x.1.world.guard p = some k) (hrun : x.1.world.runnable p = true) :
    ∃ y, guardedSystem.step x (.mutex (.lock p)) = some y ∧ GuardedExiting T g y ∧ y.1.rest T < x.1.rest T := by
  obtain ⟨phase, hl, hm⟩ := h.inv.mutex.locks hk hh hrun
  let m : Mutex := { x.1.mutex with holder := some (.task p), phase := Function.update x.1.mutex.phase p phase }
  have hs : guardedSystem.step x (.mutex (.lock p)) = some (⟨x.1.world, m⟩, x.2) := guarded_mutex.2 ⟨rfl, hm, rfl⟩
  refine ⟨_, hs, ⟨h.exiting, (h.inv.step (b := .mutex (.lock p)) (by rintro ⟨⟩) hs).1, fun z hz => ?_⟩, ?_⟩
  · cases hz
    exact hrun
  · have hranks : ∑ q ∈ T, (m.phase q).rank + (x.1.mutex.phase p).rank =
        ∑ q ∈ T, (x.1.mutex.phase q).rank + phase.rank := (sum_rank_update p T x.1.mutex.phase phase).1 hp
    have hlt := Guard.locked_rank hl
    have hfree : x.1.mutex.holding = 0 := by simp [Mutex.holding, hh]
    have hholding : m.holding ≤ 2 := by
      simp only [m, Mutex.holding]
      split <;> omega
    simp only [Guarded.rest]
    omega

theorem GuardedExiting.progress (h : GuardedExiting T g x) (hnot : history g x.2 ≠ exitProtocol g) :
    ∃ b y, AssumedGuarded x.1 b ∧ guardedSystem.step x b = some y ∧
      (history g y.2 = exitProtocol g ∨ (GuardedExiting T g y ∧ y.1.rest T < x.1.rest T)) := by
  cases hh : x.1.mutex.holder with
  | some z =>
    cases z with
    | other n =>
      have hm : stepMutex x.1.world x.1.mutex (.unlockOther n) = some { x.1.mutex with holder := none } :=
        if_pos ⟨hh, h.kept _ hh⟩
      obtain ⟨y, hs, hy⟩ := h.unlocked (by rintro ⟨⟩) hm rfl (by simp [hh]) (le_refl _)
      exact ⟨.mutex (.unlockOther n), y, (by rintro ⟨⟩), hs, .inr hy⟩
    | task p =>
      by_cases hp : x.1.mutex.phase p = .inside
      · obtain ⟨a, y, ha, hs, hy⟩ := h.inside hnot hh hp
        exact ⟨.lifecycle a, y, ha, hs, hy⟩
      · have hheld := (h.inv.mutex.holder p).2 hh
        obtain ⟨phase, hu⟩ : ∃ phase, (x.1.mutex.phase p).unlocked = some phase := by
          cases hphase : x.1.mutex.phase p <;> first
            | exact ⟨_, rfl⟩
            | exact absurd hphase hp
            | (rw [hphase] at hheld; cases hheld)
        have hrun : x.1.world.runnable p = true := h.kept _ hh
        have hm : stepMutex x.1.world x.1.mutex (.unlock p) = some { x.1.mutex with
            holder := none, phase := Function.update x.1.mutex.phase p phase } := by
          simp [stepMutex, hrun, hu]
        have hranks := sum_rank_update p T x.1.mutex.phase phase
        have hlt := MutexPhase.unlocked_rank hu
        obtain ⟨y, hs, hy⟩ := h.unlocked (by rintro ⟨⟩) hm rfl (by simp [hh]) (by
          by_cases hT : p ∈ T
          · have := hranks.1 hT
            dsimp only
            omega
          · exact (hranks.2 hT).le)
        exact ⟨.mutex (.unlock p), y, (by rintro ⟨⟩), hs, .inr hy⟩
  | none =>
    obtain ⟨p, z, hp, hs, hz⟩ := h.exiting.progress hnot
    have hrun := (step_last (loggedSystem_step.1 hs).1).1
    cases hk : x.1.world.guard p with
    | some k =>
      obtain ⟨y, hs, hy⟩ := h.locked hp hh hk hrun
      exact ⟨.mutex (.lock p), y, (by rintro ⟨⟩), hs, .inr hy⟩
    | none =>
      have hidle := h.inv.mutex.idle hk (by simp [hh])
      have hafter : x.1.mutex.after (.step p true) = x.1.mutex := if_neg (by simp [hidle])
      have hstep : guardedSystem.step x (.lifecycle (.step p true)) = some (⟨z.1, x.1.mutex⟩, z.2) :=
        guarded_lifecycle.2 ⟨by simp [Mutex.admits, hk, hidle], hs, hafter.symm⟩
      refine ⟨.lifecycle (.step p true), _, assumed_step _ _, hstep, ?_⟩
      by_cases hdone : history g z.2 = exitProtocol g
      · exact .inl hdone
      · have hlt := hz.resolve_left hdone
        refine .inr ⟨⟨h.exiting.step hnot (.inl hp) hs, ?_, fun y hy => by cases hh.symm.trans hy⟩, ?_⟩
        · exact (h.inv.step (b := .lifecycle (.step p true)) (assumed_step _ _) hstep).1
        · simp only [Guarded.rest]
          dsimp only at hlt
          omega

end ESPressio.Lifecycle
