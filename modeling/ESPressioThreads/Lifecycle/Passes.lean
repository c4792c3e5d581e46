import ESPressioThreads.Lifecycle.Destruction
import ESPressioThreads.Lifecycle.Ownership
/-!
# The passes of the dispatcher and the destructor

After each record the dispatcher runs a cleanup pass over the whole registry: it
copies the records and then calls every thread, until the end of its destructor
also the one whose dispatch has just cleared the pending flag. The passes are
added here to the lifecycle of a thread of the policy `ExplicitRelease`, which
they read and do not claim.

Who adds the thread to the registry and when it is removed is left open: the
constructor, `Initialize`, `_removeRegistration` and `RemoveThread` are among
them. So is on behalf of which thread the dispatcher runs a pass.
-/

namespace ESPressio.Lifecycle

open Transition ESPressio.Thread

variable {w w' : World} {s s' : Shared} {p : TaskId} {ok : Bool} {f : Frame} {f' : Option Frame} {a : TaskId × Nat}

/-! ## The passes -/

/-- A pass whose snapshot has the thread: how many calls the dispatcher was in
when it began, and what it does with the thread next. -/
structure Pass where
  depth : Nat
  pc : CleanUpPc
  deriving DecidableEq, Repr

/-- The thread, whether the registry has a record of it, and the pass of the
dispatcher that has not come past it. -/
structure Listed where
  world : World
  listed : Bool
  pass : Option Pass

inductive ListedAction
  | lifecycle (a : Action)
  | list (listed : Bool)
  /-- `CleanUpWithResult` copies the registry. -/
  | snapshot
  | visit
  /-- It throws before it has come to the thread. -/
  | abandon
  deriving DecidableEq, Repr

namespace Listed

/-- The pass itself runs on the dispatcher, not a call above it. -/
def inPass (x : Listed) : Bool := x.pass.any fun v => v.depth = x.world.depth .dispatcher

/-- The owner, on application task `n`, begins `~Thread`. -/
def destroy (x : Listed) (n : Nat) : Listed := { x with world := x.world.destroy n }

end Listed

def Action.isStep (p : TaskId) : Action → Bool
  | .step q _ => q = p
  | .call _ _ => false

def stepListed (x : Listed) : ListedAction → Option Listed
  -- What the dispatcher was doing goes on after the pass.
  | .lifecycle a =>
    if a.isStep .dispatcher && x.inPass then none
    else (step x.world a).map fun w => { x with world := w }
  | .list listed => some { x with listed := listed }
  | .snapshot =>
    if x.pass = none ∧ x.world.inUserCode .dispatcher then
      some { x with pass := if x.listed then some ⟨x.world.depth .dispatcher, .getThreadState⟩ else none }
    else none
  | .visit =>
    match x.pass with
    | none => none
    | some v =>
      if x.inPass then
        (execCleanUp x.world.shared .dispatcher v.pc true).map fun r =>
          { x with
            world := { x.world with shared := r.1 }
            pass := match r.2 with | .goto pc => some { v with pc := pc } | .ret _ => none }
      else none
  | .abandon => if x.inPass then some { x with pass := none } else none

/-- A thread that does not free itself, registered or not. -/
def listedSystem : System Listed ListedAction where
  init x := ∃ start precision listed, x = ⟨.start (Shared.start false start precision false), listed, none⟩
  step := stepListed

/-! ## What the runs meet -/

/-- The thread stays one of the policy `ExplicitRelease`. -/
def ListedAction.Explicit : ListedAction → Prop
  | .lifecycle (.call _ request) => request ≠ .setFreeOnTerminate true
  | _ => True

/-- A condition on the steps of the lifecycle. -/
def OnLifecycle (C : World → Action → Prop) (x : Listed) : ListedAction → Prop
  | .lifecycle a => C x.world a
  | _ => True

/-- No pass has yet to come to the thread when the destructor looks at the
pending flag and goes on, and no later pass finds the thread in the registry. -/
def PassesApart (x : Listed) : ListedAction → Prop
  | .lifecycle (.step p _) => ∀ f, x.world.top p = some f → f.pc.looks = true →
      x.world.shared.terminationDispatchPending = false → x.pass = none
  | .snapshot => x.world.Passed → x.listed = false
  | _ => True

/-- No record is queued, no worker takes a step, and the dispatcher is done with
the last record and has the thread in no pass. -/
structure Quiescent (x : Listed) : Prop where
  queue : x.world.shared.queue = []
  worker : ∀ g ok, stepListed x (.lifecycle (.step (.worker g) ok)) = none
  dispatcher : ∀ ok y, stepListed x (.lifecycle (.step .dispatcher ok)) = some y →
    (x.world.top .dispatcher).map (·.pc) = some (.dispatcher .cleanUp) ∧ y.world.shared = x.world.shared
  pass : x.pass = none

/-! ## A pass reads the thread -/

theorem exec_free {pc : Pc} {next : Next Pc} (h : exec s p pc ok = some (s', next))
    (hne : ∀ b, pc ≠ .setFreeOnTerminate true b) (hf : s.freeOnTerminate = false) : s'.freeOnTerminate = false := by
  have hclaim : ∀ a b, (s.exchangeClaim a b).freeOnTerminate = false := by
    intro a b
    unfold Shared.exchangeClaim
    split <;> exact hf
  rcases exec_owner h with ho | ho
  · exact (congrArg Prod.fst ho).trans hf
  · cases pc with
    | setFreeOnTerminate value stored =>
      cases value with
      | true => exact absurd rfl (hne stored)
      | false => cases stored <;> cases h <;> first | rfl | exact hclaim _ _
    | shutdown t => cases t <;> cases ho <;> cases h <;> first | rfl | exact hclaim _ _
    | cleanUp t =>
      cases t <;> cases ho
      · simp only [exec, execCleanUp] at h
        split at h <;> cases h <;> exact hf
      · cases h; rfl
      · cases h; exact hclaim _ _
    | _ => cases ho

/-- The thread is not to be freed, no call is going to change that, and a pass
only reads it. -/
structure Listed.Owned (x : Listed) : Prop where
  free : x.world.shared.freeOnTerminate = false
  calls : ∀ a f, x.world.call a = some f → ∀ b, f.pc ≠ .setFreeOnTerminate true b
  pass : ∀ v, x.pass = some v → v.pc = .getThreadState ∨ v.pc = .loadFree

theorem FrameStep.not_frees {g : Frame} (h : FrameStep s p f ok s' (some g))
    (hf : ∀ b, f.pc ≠ .setFreeOnTerminate true b) (b : Bool) : g.pc ≠ .setFreeOnTerminate true b := by
  intro hg
  cases h.goto with
  | inTransition | transitionStart => exact hf b hg
  | transitionDone tr s' stored threw pc htr hst hn =>
    generalize f.pc = x at hn
    cases resume_goto hn <;> cases hg
  | exec s' pc htr hpc hex =>
    generalize hx : f.pc = x at hex
    cases exec_goto hex with
    | setFreeOnTerminate value => cases hg; exact hf false hx
    | _ => cases hg

/-- A visit leaves the thread as it is. -/
theorem Listed.Owned.visit {x y : Listed} (h : x.Owned) (hs : stepListed x .visit = some y) :
    y.world = x.world ∧ ∀ v, y.pass = some v → v.pc = .getThreadState ∨ v.pc = .loadFree := by
  simp only [stepListed] at hs
  split at hs
  · cases hs
  · rename_i v hv
    split at hs
    · obtain ⟨⟨s, next⟩, hex, rfl⟩ := Option.map_eq_some_iff.1 hs
      rcases h.pass v hv with hpc | hpc <;> rw [hpc] at hex <;> cases hex
      · refine ⟨rfl, fun u hu => ?_⟩
        dsimp only at hu
        split at hu
        · rename_i pc hnext
          cases hu
          split at hnext <;> cases hnext
          exact .inr rfl
        · cases hu
      · refine ⟨rfl, fun u hu => ?_⟩
        simp [h.free] at hu
    · cases hs

/-- Seen without the passes, every step is one of the lifecycle or none. -/
theorem Listed.Owned.step {x y : Listed} {b : ListedAction} (h : x.Owned) (hc : b.Explicit)
    (hs : stepListed x b = some y) :
    y.Owned ∧ ((∃ a, b = .lifecycle a ∧ Lifecycle.step x.world a = some y.world ∧ y.pass = x.pass) ∨
      ((∀ a, b ≠ .lifecycle a) ∧ y.world = x.world)) := by
  cases b with
  | lifecycle a =>
    simp only [stepListed] at hs
    split at hs
    · cases hs
    · obtain ⟨w, hw, rfl⟩ := Option.map_eq_some_iff.1 hs
      refine ⟨⟨?_, ?_, h.pass⟩, .inl ⟨a, rfl, hw, rfl⟩⟩
      · cases a with
        | call p request =>
          obtain ⟨hshared, -⟩ := call_update hw
          exact (congrArg Shared.freeOnTerminate hshared).trans h.free
        | step p ok =>
          obtain ⟨-, c, f, f', -, -, hf, hstep, -⟩ := step_update hw
          dsimp only
          rcases hstep.shared_cases with ⟨_, _, _, he⟩ | ⟨next, hex⟩
          · rw [he]; exact h.free
          · exact exec_free hex (h.calls c f hf) h.free
      · cases a with
        | call p request =>
          obtain ⟨-, -, c, -, -, hcall⟩ := call_update hw
          dsimp only
          rw [hcall]
          refine forall_call_update (fun f hf b hb => ?_) fun d f _ hd => h.calls d f hd
          cases hf
          cases request with
          | setFreeOnTerminate value => cases hb; exact hc rfl
          | _ => cases hb
        | step p ok =>
          obtain ⟨-, c, f, f', -, -, hf, hstep, hcall⟩ := step_update hw
          dsimp only
          rw [hcall]
          refine forall_call_update (fun g hg => ?_) fun d f _ hd => h.calls d f hd
          rw [hg] at hstep
          exact hstep.not_frees (h.calls c f hf)
  | list b => cases hs; exact ⟨⟨h.free, h.calls, h.pass⟩, .inr ⟨(by rintro _ ⟨⟩), rfl⟩⟩
  | snapshot =>
    simp only [stepListed] at hs
    split at hs <;> cases hs
    refine ⟨⟨h.free, h.calls, fun v hv => ?_⟩, .inr ⟨(by rintro _ ⟨⟩), rfl⟩⟩
    dsimp only at hv
    split at hv <;> cases hv
    exact .inl rfl
  | visit =>
    obtain ⟨hw, hpass⟩ := h.visit hs
    exact ⟨⟨by rw [hw]; exact h.free, by rw [hw]; exact h.calls, hpass⟩, .inr ⟨(by rintro _ ⟨⟩), hw⟩⟩
  | abandon =>
    simp only [stepListed] at hs
    split at hs <;> cases hs
    exact ⟨⟨h.free, h.calls, (by rintro _ ⟨⟩)⟩, .inr ⟨(by rintro _ ⟨⟩), rfl⟩⟩

theorem owned_start {x : Listed} (h : listedSystem.init x) : x.Owned := by
  obtain ⟨start, precision, b, rfl⟩ := h
  refine ⟨rfl, fun a f hf b hb => ?_, (by rintro _ ⟨⟩)⟩
  rcases start_call hf with ⟨g, -, rfl⟩ | ⟨-, rfl⟩ <;> cases hb

/-- A run with passes is a run of the lifecycle. -/
theorem Listed.Owned.reachable {C : World → Action → Prop} {x : Listed}
    (h : listedSystem.ReachableWhen (fun x b => b.Explicit ∧ OnLifecycle C x b) x) :
    (system false).ReachableWhen C x.world ∧ x.Owned := by
  refine h.map (f := Listed.world) (I := Listed.Owned) (fun x hx => ⟨?_, owned_start hx⟩) fun x b y hi hc hs => ?_
  · obtain ⟨start, precision, listed, rfl⟩ := hx
    exact ⟨false, start, precision, rfl⟩
  · obtain ⟨hy, ⟨a, rfl, ha, -⟩ | ⟨-, hw⟩⟩ := hi.step hc.1 hs
    · exact ⟨hy, .inr ⟨a, hc.2, ha⟩⟩
    · exact ⟨hy, .inl hw⟩

/-! ## Past the wait -/

theorem FrameStep.freed_mono (h : FrameStep s p f ok s' f') (hf : s.freed = true) : s'.freed = true := by
  rcases h.shared_cases with ⟨_, _, _, rfl⟩ | ⟨next, hex⟩
  · exact hf
  · rcases exec_aside hex with ⟨-, ha⟩ | ⟨t, m, -, -, hc⟩
    · exact (congrArg (fun x => x.2.2.2.2) ha).trans hf
    · have hclaim : ∀ a b, (s.exchangeClaim a b).freed = true := fun a b =>
        (congrArg (fun x => x.2.2.2.2) (Shared.aside_exchangeClaim s a b)).trans hf
      have hkill : ∀ g, (s.kill g).freed = true := fun g =>
        (congrArg (fun x => x.2.2.2.2) (Shared.aside_kill s g)).trans hf
      cases t <;> simp only [execCleanUp] at hc
      case exchangeClaim => split at hc <;> cases hc <;> exact hf
      all_goals first
        | (cases hc; first | exact hf | exact hclaim _ _ | exact hkill _ | rfl)
        | cases hc

/-- The destructor goes on to its end. -/
theorem FrameStep.passed (h : FrameStep s p f ok s' f') (hok : f.Ok a) (hpc : f.pc.passed = true) :
    s'.freed = true ∨ ∃ g, f' = some g ∧ g.pc.passed = true := by
  cases hf : f.pc with
  | cleanUp t =>
    rw [hf] at hpc
    by_cases ht : t = .setDestroyed
    · subst ht
      right
      cases h with
      | inTransition | transitionStart => exact ⟨_, rfl, by simp only [hf]; rfl⟩
      | transitionDone tr s' stored threw => rw [hf]; exact ⟨_, rfl, rfl⟩
      | exec s' next _ hno => rw [hf] at hno; cases hno
    · obtain ⟨next, hex, rfl⟩ := h.exec_of hok (by rw [hf]; cases t <;> first | rfl | exact absurd rfl ht)
      rw [hf] at hex
      cases t <;> first
        | exact absurd rfl ht
        | (cases hpc; done)
        | (cases hex; first | exact .inl rfl | exact .inr ⟨_, rfl, rfl⟩)
  | _ => rw [hf] at hpc; cases hpc

theorem World.Passed.step {b : Action} (h : w.Passed) (hcalls : CallsOk w) (hs : Lifecycle.step w b = some w') :
    w'.Passed := by
  cases b with
  | call p request =>
    obtain ⟨hshared, -, c, -, hnone, hcall⟩ := call_update hs
    rcases h with hf | ⟨a, f, hf, hp⟩
    · exact .inl (by rw [hshared]; exact hf)
    · refine .inr ⟨a, f, ?_, hp⟩
      rw [hcall, Function.update_of_ne]
      · exact hf
      · rintro rfl
        rw [hnone] at hf
        cases hf
  | step p ok =>
    obtain ⟨-, c, f, f', -, -, hf, hstep, hcall⟩ := step_update hs
    rcases h with hfreed | ⟨a, g, hg, hp⟩
    · exact .inl (hstep.freed_mono hfreed)
    · by_cases hac : a = c
      · subst hac
        obtain rfl := Option.some.inj (hf.symm.trans hg)
        rcases hstep.passed (hcalls _ _ hf) hp with hfreed | ⟨x, rfl, hx⟩
        · exact .inl hfreed
        · exact .inr ⟨a, x, by rw [hcall, Function.update_self], hx⟩
      · exact .inr ⟨a, g, by rw [hcall, Function.update_of_ne hac]; exact hg, hp⟩

/-- The destructor has passed, and nothing of the exit and of the passes is left. -/
structure Listed.AtRest (x : Listed) : Prop where
  owned : x.Owned
  world : Lifecycle.AtRest x.world
  passed : x.world.Passed
  pass : x.pass = none

variable {x y : Listed} {b : ListedAction}

/-- A step outside the lifecycle takes the thread into a pass only from the registry. -/
theorem Listed.AtRest.pass_step (h : x.AtRest) (ha : PassesApart x b) (hb : ∀ a, b ≠ .lifecycle a)
    (hs : stepListed x b = some y) : y.pass = none := by
  cases b with
  | lifecycle a => exact absurd rfl (hb a)
  | list => cases hs; exact h.pass
  | snapshot =>
    simp only [stepListed] at hs
    split at hs <;> cases hs
    dsimp only
    rw [ha h.passed]
    rfl
  | visit =>
    simp only [stepListed, h.pass] at hs
    cases hs
  | abandon =>
    simp only [stepListed] at hs
    split at hs <;> cases hs
    rfl

theorem Listed.AtRest.step (h : x.AtRest) (hc : b.Explicit) (ho : OnLifecycle OnlyExits x b) (ha : PassesApart x b)
    (hs : stepListed x b = some y) : y.AtRest := by
  obtain ⟨hy, ⟨a, rfl, hw, hp⟩ | ⟨hb, hw⟩⟩ := h.owned.step hc hs
  · exact ⟨hy, h.world.step ho hw, h.passed.step h.world.calls hw, hp.trans h.pass⟩
  · exact ⟨hy, by rw [hw]; exact h.world, by rw [hw]; exact h.passed, h.pass_step ha hb hs⟩

theorem Listed.AtRest.quiescent (h : x.AtRest) : Quiescent x := by
  obtain ⟨hqueue, hworker, hdispatcher⟩ := h.world.exitOver
  refine ⟨hqueue, fun g ok => ?_, fun ok y hs => ?_, h.pass⟩
  · simp only [stepListed, hworker, Option.map_none, ite_self]
  · simp only [stepListed] at hs
    split at hs
    · cases hs
    · obtain ⟨w, hw, rfl⟩ := Option.map_eq_some_iff.1 hs
      exact hdispatcher ok w hw

/-- The destructor has not passed its wait, or nothing is left. -/
def Listed.Destroying (x : Listed) : Prop := x.Owned ∧ ((∃ st, Destructing x.world st) ∨ x.AtRest)

theorem Listed.Destroying.step (h : x.Destroying) (hc : b.Explicit) (ho : OnLifecycle OnlyExits x b)
    (hl : OnLifecycle LoadsStored x b) (ha : PassesApart x b) (hs : stepListed x b = some y) : y.Destroying := by
  obtain ⟨howned, ⟨st, hd⟩ | hrest⟩ := h
  · obtain ⟨hy, ⟨a, rfl, hw, hp⟩ | ⟨hb, hw⟩⟩ := howned.step hc hs
    · refine ⟨hy, ?_⟩
      cases a with
      | call p request => exact .inl ⟨st, hd.pushed ho hw⟩
      | step p ok =>
        rcases hd.stepped hl hw with hd' | ⟨hrest, hpassed, hpending, f, htop, hlooks⟩
        · exact .inl hd'
        -- It passes, while no pass has yet to come to the thread.
        · exact .inr ⟨hy, hrest, hpassed, hp.trans (ha f htop hlooks hpending)⟩
    · exact ⟨hy, .inl ⟨st, by rw [hw]; exact hd⟩⟩
  · have hy := hrest.step hc ho ha hs
    exact ⟨hy.owned, .inr hy⟩

theorem destroying_start {n : Nat}
    (h : listedSystem.ReachableWhen (fun x b => b.Explicit ∧ OnLifecycle ChecksHold x b) x)
    (hd : Destroyable x.world n) : (x.destroy n).Destroying := by
  obtain ⟨hr, howned⟩ := Listed.Owned.reachable h
  refine ⟨⟨howned.free, ?_, howned.pass⟩, .inl (destructing_start hr hd)⟩
  rw [Listed.destroy, World.destroy_call]
  refine forall_call_update (fun f hf b hb => ?_) fun c f _ hf => howned.calls c f hf
  cases hf
  cases hb

/-- When the destructor passes its wait after every worker has stored the
pending flag, and the passes of the dispatcher keep apart from it, the exit is
over: no record is or becomes queued, and neither the worker nor the dispatcher
takes a further step on the thread. -/
theorem destroyed_at_rest (x : Listed) (n : Nat)
    (h : listedSystem.ReachableWhen (fun x b => b.Explicit ∧ OnLifecycle ChecksHold x b) x)
    (hd : Destroyable x.world n) (y : Listed)
    (hy : listedSystem.Leads (fun x b => (b.Explicit ∧ OnLifecycle OnlyExits x b) ∧
      OnLifecycle LoadsStored x b ∧ PassesApart x b) (x.destroy n) y) (hp : y.world.Passed) (z : Listed)
    (hz : listedSystem.Leads (fun x b => (b.Explicit ∧ OnLifecycle OnlyExits x b) ∧ PassesApart x b) y z) :
    Quiescent z := by
  have hdestroying : y.Destroying :=
    hy.invariant (destroying_start h hd) fun x b y hi hc hs => hi.step hc.1.1 hc.1.2 hc.2.1 hc.2.2 hs
  have hrest : y.AtRest := by
    rcases hdestroying.2 with ⟨st, hd⟩ | hrest
    · exact absurd hp hd.not_passed
    · exact hrest
  exact (hz.invariant (I := Listed.AtRest) hrest fun x b y hi hc hs => hi.step hc.1.1 hc.1.2 hc.2 hs).quiescent

/-! ## A destructor that is too early -/

instance : ∀ b : ListedAction, Decidable b.Explicit
  | .lifecycle (.call _ _) => inferInstanceAs (Decidable (_ ≠ _))
  | .lifecycle (.step _ _) | .list _ | .snapshot | .visit | .abandon => inferInstanceAs (Decidable True)

/-- The tasks that run. -/
abbrev exitTasks : List TaskId := [.app 0, .app 1, .worker 0, .worker 1, .dispatcher]

/-- The thread is created and its worker exits; no pass has begun. -/
def ExitsOn (x : Listed) : ListedAction → Prop
  | .lifecycle a => ListedAction.Explicit (.lifecycle a) ∧ ChecksHoldOn x.world a
  | _ => False

instance (x : Listed) : ∀ b, Decidable (ExitsOn x b)
  | .lifecycle a => inferInstanceAs (Decidable (ListedAction.Explicit (.lifecycle a) ∧ ChecksHoldOn x.world a))
  | .list _ | .snapshot | .visit | .abandon => inferInstanceAs (Decidable False)

/-- A step of the lifecycle, which finds the one worker suspended if it loads
the pending flag, or of a pass. -/
def DestroysOn (x : Listed) : ListedAction → Prop
  | .lifecycle (.call _ _) | .list _ => False
  | .lifecycle (.step p _) => p ∈ exitTasks ∧ ((x.world.top p).map (·.pc) = some (.cleanUp .loadPending) →
      x.world.shared.created = 1 ∧ x.world.entry 0 = some (.worker 0 .suspended))
  | .snapshot | .visit | .abandon => True

instance (x : Listed) : ∀ b, Decidable (DestroysOn x b)
  | .lifecycle (.call _ _) | .list _ => inferInstanceAs (Decidable False)
  | .lifecycle (.step _ _) => inferInstanceAs (Decidable (_ ∧ (_ → _)))
  | .snapshot | .visit | .abandon => inferInstanceAs (Decidable True)

theorem destroys_of_on (h : DestroysOn x b) :
    (b.Explicit ∧ OnLifecycle OnlyExits x b) ∧ OnLifecycle LoadsStored x b := by
  cases b with
  | lifecycle a =>
    cases a with
    | call => exact h.elim
    | step p ok =>
      refine ⟨⟨trivial, trivial⟩, fun f htop hpc g hg => ?_⟩
      obtain ⟨hcreated, hentry⟩ := h.2 (by simp [htop, hpc])
      simp only [World.runnable, hcreated, Bool.and_eq_true, decide_eq_true_eq] at hg
      obtain rfl : g = 0 := Nat.lt_one_iff.1 hg.1
      exact ⟨.suspended, hentry, rfl⟩
  | list => exact h.elim
  | snapshot | visit | abandon => exact ⟨⟨trivial, trivial⟩, trivial⟩

theorem DestroysOn.task {a : Action} (h : DestroysOn x (.lifecycle a)) : a.task ∈ exitTasks := by
  cases a with
  | call => exact h.elim
  | step p ok => exact h.1

/-- No pass is on when the destructor looks, and it has not passed when one begins. -/
def ApartOn (x : Listed) : ListedAction → Prop
  | .lifecycle (.step p _) => (x.world.top p).any (fun f => f.pc.looks) = true → x.pass = none
  | .snapshot => x.world.shared.freed = false ∧ x.world.callsOn exitTasks (fun f => !f.pc.passed) = true
  | _ => True

instance (x : Listed) : ∀ b, Decidable (ApartOn x b)
  | .lifecycle (.step _ _) => inferInstanceAs (Decidable (_ → _))
  | .snapshot => inferInstanceAs (Decidable (_ ∧ _))
  | .lifecycle (.call _ _) | .list _ | .visit | .abandon => inferInstanceAs (Decidable True)

theorem passesApart_of_on (hi : x.world.IdleBut exitTasks) (h : ApartOn x b) : PassesApart x b := by
  cases b with
  | lifecycle a =>
    cases a with
    | call => trivial
    | step p ok => exact fun f htop hlooks _ => h (by rw [htop]; exact hlooks)
  | snapshot =>
    rintro (hf | ⟨a, f, hf, hpassed⟩)
    · rw [h.1] at hf
      cases hf
    · have hnot := hi.forall_call (P := fun f => !f.pc.passed) (by rintro f (⟨g, rfl⟩ | rfl) <;> rfl) h.2 a f hf
      rw [hpassed] at hnot
      cases hnot
  | list | visit | abandon => trivial

/-- `Destroyable` by task 1, of the tasks that run. -/
def DestroyableOn (w : World) : Prop :=
  (w.shared.freed = false ∧ w.shared.threadState = .terminated) ∧ (w.depth (.app 1) = 0 ∧ w.depth .dispatcher = 1) ∧
    w.callsOn exitTasks (fun f => !f.pc.initializes) = true

instance (w : World) : Decidable (DestroyableOn w) := by
  unfold DestroyableOn
  exact inferInstance

theorem destroyable_of_on (hi : w.IdleBut exitTasks) (h : DestroyableOn w) : Destroyable w 1 := by
  obtain ⟨⟨hfreed, hterminated⟩, ⟨happ, hdispatcher⟩, hcalls⟩ := h
  refine ⟨hfreed, hterminated, by simp [World.inUserCode, happ], fun a f hf => ?_, fun _ k => ?_⟩
  · have := hi.forall_call (P := fun f => !f.pc.initializes) (by rintro f (⟨g, rfl⟩ | rfl) <;> rfl) hcalls a f hf
    simpa using this
  · simp [World.call, hdispatcher]

/-- A thread in the registry; the constructed one of `newThread`. -/
def listedThread : Listed := ⟨newThread false false, true, none⟩

theorem listedThread_init : listedSystem.init listedThread := ⟨true, false, true, rfl⟩

/-- Task 0 initializes and terminates the thread, whose worker makes `k` steps. -/
def exiting (k : Nat) : List ListedAction := (initialized ++ terminating ++ steps (.worker 0) k).map .lifecycle

/-- The steps of a task. -/
def listedSteps (p : TaskId) (k : Nat) : List ListedAction := (steps p k).map .lifecycle

theorem Listed.idleBut_step {C : Listed → ListedAction → Prop} (hC : ∀ x a, C x (.lifecycle a) → a.task ∈ exitTasks)
    (hi : x.Owned ∧ x.world.IdleBut exitTasks) (he : b.Explicit) (hc : C x b) (hs : stepListed x b = some y) :
    y.Owned ∧ y.world.IdleBut exitTasks := by
  obtain ⟨hy, ⟨a, rfl, hw, -⟩ | ⟨-, hw⟩⟩ := hi.1.step he hs
  · exact ⟨hy, hi.2.step (hC x a hc) hw⟩
  · exact ⟨hy, by rw [hw]; exact hi.2⟩

/-- The thread when its destructor begins. -/
theorem exiting_reachable {k : Nat} (h : listedSystem.replayWhen ExitsOn listedThread (exiting k) = some x)
    (hon : DestroyableOn x.world) :
    listedSystem.ReachableWhen (fun x b => b.Explicit ∧ OnLifecycle ChecksHold x b) x ∧ Destroyable x.world 1 ∧
      x.Owned ∧ x.world.IdleBut exitTasks := by
  have hl := Transition.System.leads_of_replayWhen h
  have h0 : listedThread.Owned ∧ listedThread.world.IdleBut exitTasks :=
    ⟨owned_start listedThread_init, idleBut_start _ _⟩
  have hexplicit : ∀ {x : Listed} {b : ListedAction}, ExitsOn x b → b.Explicit := by
    rintro x (a | _) hc
    · exact hc.1
    all_goals exact hc.elim
  have hkeep : ∀ x b y, x.Owned ∧ x.world.IdleBut exitTasks → ExitsOn x b → listedSystem.step x b = some y →
      y.Owned ∧ y.world.IdleBut exitTasks :=
    fun x b y hi hc hs => Listed.idleBut_step (C := ExitsOn) (fun x a hc => hc.2.1) hi (hexplicit hc) hc hs
  obtain ⟨howned, hidle⟩ := hl.invariant h0 hkeep
  refine ⟨(Transition.System.ReachableWhen.init listedThread_init).leads (hl.mono_with h0 hkeep ?_),
    destroyable_of_on hidle hon, howned, hidle⟩
  rintro x (a | _) hi hc
  · exact ⟨hc.1, checksHold_of_on hi.2 hc.2⟩
  all_goals exact hc.elim

theorem World.destroy_idleBut (hi : w.IdleBut exitTasks) : (w.destroy 1).IdleBut exitTasks := by
  rw [World.IdleBut, World.destroy_call]
  exact forall_call_update (fun f _ => .inl (by simp)) fun b f _ hb => hi b f hb

/-- The destructor waits for the dispatch of the record, and the pass after it
comes past the thread before the destructor looks again. -/
theorem destroyed_after_dispatch : ∃ x y,
    listedSystem.ReachableWhen (fun x b => b.Explicit ∧ OnLifecycle ChecksHold x b) x ∧ Destroyable x.world 1 ∧
    listedSystem.Leads (fun x b => (b.Explicit ∧ OnLifecycle OnlyExits x b) ∧ OnLifecycle LoadsStored x b ∧
      PassesApart x b) (x.destroy 1) y ∧ y.world.Passed ∧ Quiescent y := by
  have hrun : ((listedSystem.replayWhen ExitsOn listedThread (exiting 13)).bind fun x =>
      (listedSystem.replayWhen (fun x b => DestroysOn x b ∧ ApartOn x b) (x.destroy 1)
        (listedSteps (.app 1) 5 ++ listedSteps .dispatcher 8 ++ [.snapshot, .visit, .visit] ++
          listedSteps (.app 1) 1)).map
        fun y => (decide (DestroyableOn x.world), (y.world.call (.app 1, 0)).map (·.pc))) =
      some (true, some (.cleanUp .setDestroyed)) := by
    decide +kernel
  obtain ⟨x, hx, hrun⟩ := Option.bind_eq_some_iff.1 hrun
  obtain ⟨y, hy, hp⟩ := Option.map_eq_some_iff.1 hrun
  simp only [Prod.mk.injEq, decide_eq_true_eq] at hp
  obtain ⟨hr, hd, howned, hidle⟩ := exiting_reachable hx hp.1
  have hstart : (x.destroy 1).Owned ∧ (x.destroy 1).world.IdleBut exitTasks :=
    ⟨(destroying_start hr hd).1, World.destroy_idleBut hidle⟩
  have hl : listedSystem.Leads (fun x b => (b.Explicit ∧ OnLifecycle OnlyExits x b) ∧ OnLifecycle LoadsStored x b ∧
      PassesApart x b) (x.destroy 1) y := by
    refine (Transition.System.leads_of_replayWhen hy).mono_with
      (I := fun x => x.Owned ∧ x.world.IdleBut exitTasks) hstart (fun x b y hi hc hs => ?_) fun x b hi hc => ?_
    · exact Listed.idleBut_step (C := DestroysOn) (fun _ _ => DestroysOn.task) hi (destroys_of_on hc.1).1.1 hc.1 hs
    · exact ⟨(destroys_of_on hc.1).1, (destroys_of_on hc.1).2, passesApart_of_on hi.2 hc.2⟩
  obtain ⟨f, hf, hpc⟩ := Option.map_eq_some_iff.1 hp.2
  have hpassed : y.world.Passed := .inr ⟨_, f, hf, by rw [hpc]; rfl⟩
  exact ⟨x, y, hr, hd, hl, hpassed, destroyed_at_rest x 1 hr hd y hl hpassed y (.refl y)⟩

theorem leads_of_steps {as : List ListedAction} (has : ∀ q request, .lifecycle (.call q request) ∉ as)
    (h : listedSystem.replay x as = some y) :
    listedSystem.Leads (fun x b => b.Explicit ∧ OnLifecycle OnlyExits x b) x y := by
  induction as generalizing x with
  | nil => cases h; exact .refl _
  | cons b as ih =>
    obtain ⟨z, hz, hy⟩ := Option.bind_eq_some_iff.1 h
    have hb : b.Explicit ∧ OnLifecycle OnlyExits x b := by
      cases b with
      | lifecycle a =>
        cases a with
        | call q request => exact absurd List.mem_cons_self (has q request)
        | step q ok => exact ⟨trivial, trivial⟩
      | list | snapshot | visit | abandon => exact ⟨trivial, trivial⟩
    exact (Transition.System.Leads.step (C := fun x b => b.Explicit ∧ OnLifecycle OnlyExits x b) hb hz).trans
      (ih (fun q request hmem => has q request (List.mem_cons_of_mem b hmem)) hy)

theorem listedSteps_step (p : TaskId) (k : Nat) (q : TaskId) (request : Request) :
    .lifecycle (.call q request) ∉ listedSteps p k := by
  simp [listedSteps, steps]

/-- The worker has stored `Terminated` when the destructor loads the pending
flag; then it stores the flag and sends its record. -/
theorem record_after_wait : ¬ ∀ x n, listedSystem.ReachableWhen (fun _ b => b.Explicit) x → Destroyable x.world n →
    ∀ y, listedSystem.Leads (fun x b => b.Explicit ∧ OnLifecycle OnlyExits x b) (x.destroy n) y → y.world.Passed →
      ∀ z, listedSystem.Leads (fun x b => b.Explicit ∧ OnLifecycle OnlyExits x b) y z → Quiescent z := by
  intro hall
  have hrun : ((listedSystem.replayWhen ExitsOn listedThread (exiting 11)).bind fun x =>
      (listedSystem.replay (x.destroy 1) (listedSteps (.app 1) 3)).bind fun y =>
        (listedSystem.replay y (listedSteps (.worker 0) 2)).map fun z =>
          (decide (DestroyableOn x.world), (y.world.call (.app 1, 0)).map (·.pc), z.world.shared.queue)) =
      some (true, some (.cleanUp .setDestroyed), [0]) := by
    decide +kernel
  obtain ⟨x, hx, hrun⟩ := Option.bind_eq_some_iff.1 hrun
  obtain ⟨y, hy, hrun⟩ := Option.bind_eq_some_iff.1 hrun
  obtain ⟨z, hz, hp⟩ := Option.map_eq_some_iff.1 hrun
  simp only [Prod.mk.injEq, decide_eq_true_eq] at hp
  obtain ⟨hr, hd, -⟩ := exiting_reachable hx hp.1
  obtain ⟨f, hf, hpc⟩ := Option.map_eq_some_iff.1 hp.2.1
  have hq := (hall x 1 (hr.mono fun _ _ hc => hc.1) hd y (leads_of_steps (listedSteps_step _ _) hy)
    (.inr ⟨_, f, hf, by rw [hpc]; rfl⟩) z (leads_of_steps (listedSteps_step _ _) hz)).queue
  rw [hp.2.2] at hq
  cases hq

/-- The dispatcher has cleared the pending flag when the destructor looks at it;
the pass after the dispatch still has the thread in its snapshot. -/
theorem pass_after_wait : ¬ ∀ x n,
    listedSystem.ReachableWhen (fun x b => b.Explicit ∧ OnLifecycle ChecksHold x b) x → Destroyable x.world n →
    ∀ y, listedSystem.Leads (fun x b => (b.Explicit ∧ OnLifecycle OnlyExits x b) ∧ OnLifecycle LoadsStored x b)
      (x.destroy n) y → y.world.Passed → Quiescent y := by
  intro hall
  have hrun : ((listedSystem.replayWhen ExitsOn listedThread (exiting 13)).bind fun x =>
      (listedSystem.replayWhen DestroysOn (x.destroy 1)
        (listedSteps (.app 1) 5 ++ listedSteps .dispatcher 8 ++ [.snapshot] ++ listedSteps (.app 1) 1)).map fun y =>
          (decide (DestroyableOn x.world), (y.world.call (.app 1, 0)).map (·.pc), y.pass)) =
      some (true, some (.cleanUp .setDestroyed), some ⟨1, .getThreadState⟩) := by
    decide +kernel
  obtain ⟨x, hx, hrun⟩ := Option.bind_eq_some_iff.1 hrun
  obtain ⟨y, hy, hp⟩ := Option.map_eq_some_iff.1 hrun
  simp only [Prod.mk.injEq, decide_eq_true_eq] at hp
  obtain ⟨hr, hd, -⟩ := exiting_reachable hx hp.1
  obtain ⟨f, hf, hpc⟩ := Option.map_eq_some_iff.1 hp.2.1
  have hl := (Transition.System.leads_of_replayWhen hy).mono_with (I := fun _ => True) trivial
    (fun _ _ _ _ _ _ => trivial) fun _ _ _ hc => destroys_of_on hc
  have hpass := (hall x 1 hr hd y hl (.inr ⟨_, f, hf, by rw [hpc]; rfl⟩)).pass
  rw [hp.2.2] at hpass
  cases hpass

end ESPressio.Lifecycle
