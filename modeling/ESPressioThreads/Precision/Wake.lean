import Mathlib.Logic.Function.Basic
import ESPressioThreads.Lib.Transition
import ESPressioThreads.Precision.Timing
import ESPressioThreads.Thread.State
/-!
# Scheduler wakes

The worker tests the request flag, computes how long to wait and waits for
`_scheduleSignal` in three separate steps. Every operation that changes what it
looked at changes it first and gives the signal after.

An operation is a call with a program counter, and any task may have any number
of them. The base methods of `Thread` are here any valid transitions of the
state, made one at a time; that of `Start` calls the overridden `Initialize` of
a thread without a task, which resets the schedule and gives the signal too. The
signal is binary: it stays set until a `Wait` consumes it, and only the worker
waits for it.
-/

namespace ESPressio.Precision.Wake

open Transition ESPressio.Thread

abbrev OpId := Nat

/-- `Initialize` is what `Start` may call; it changes the state last. -/
inductive Request
  | wakeForWork
  | setIterationPeriod (nanoseconds : UInt64)
  | bump
  | pause
  | start
  | terminate
  | initializeThread
  deriving DecidableEq, Repr

/-- Where an operation is. `base` is the method of `Thread` that it overrides. -/
inductive OpPc
  | idle
  | storeFlag
  | updatePeriod (nanoseconds : UInt64)
  | readClock
  | bump (now : UInt64)
  | readState
  | resetSchedule (r : Request)
  | resetSignal (r : Request)
  | base (r : Request)
  | signal (r : Request)
  | returned (r : Request)
  | threw
  deriving DecidableEq, Repr

/-- Where the worker is. -/
inductive LoopPc
  | outside
  | tested
  | sampled (now : UInt64)
  | waiting (milliseconds : UInt64)
  | iterating (now generation : UInt64)
  deriving DecidableEq, Repr

structure Machine where
  timing : Timing
  threadState : ThreadState
  workWakeRequested : Bool
  /-- `_scheduleSignal`, when it could be created. -/
  signal : Option Bool
  loop : LoopPc
  ops : OpId → OpPc

inductive Action
  | call (i : OpId) (r : Request)
  | step (i : OpId) (ok : Bool)
  | readClock (i : OpId) (now : UInt64)
  /-- The base method stores a state. -/
  | store (i : OpId) (s : ThreadState)
  /-- `Thread::Start` calls `Initialize`. -/
  | nest (i : OpId)
  | onLoop
  | sample (now : UInt64)
  | schedule
  | woken
  | timeout
  | complete (endTime : UInt64)
  deriving DecidableEq, Repr

def Request.entry : Request → OpPc
  | .wakeForWork => .storeFlag
  | .setIterationPeriod nanoseconds => .updatePeriod nanoseconds
  | .bump => .readClock
  | .pause => .base .pause
  | .start => .readState
  | .terminate => .base .terminate
  | .initializeThread => .resetSchedule .initializeThread

/-- What follows a reset of the schedule: `Pause` has called its base method. -/
def Request.afterReset : Request → OpPc
  | .pause => .returned .pause
  | r => .base r

/-- What follows the base method: `Initialize` gives no signal there. -/
def Request.afterBase : Request → OpPc
  | .pause => .resetSchedule .pause
  | .initializeThread => .returned .initializeThread
  | r => .signal r

/-- `Timing::NanosecondsPerMillisecond`. -/
def nanosecondsPerMillisecond : UInt64 := 1000000

/-- `_getWaitMilliseconds`. -/
def getWaitMilliseconds (remainingNanoseconds : UInt64) : UInt64 :=
  let milliseconds := remainingNanoseconds / nanosecondsPerMillisecond
  if milliseconds = 0 then 0 else min milliseconds (0xffffffff - 1)

namespace Machine

def goto (m : Machine) (i : OpId) (pc : OpPc) : Machine := { m with ops := Function.update m.ops i pc }

/-- `_signalScheduler`. -/
def give (m : Machine) : Machine := { m with signal := m.signal.map fun _ => true }

end Machine

/-- One step of an operation; `ok` is false when the base method throws. -/
def stepOp (m : Machine) (i : OpId) (ok : Bool) : Option Machine :=
  match m.ops i with
  | .storeFlag => some ({ m with workWakeRequested := true }.goto i (.signal .wakeForWork))
  | .updatePeriod ns =>
    some ({ m with timing := setIterationPeriod m.timing ns }.goto i (.signal (.setIterationPeriod ns)))
  | .bump now => some ({ m with timing := bumpLocked m.timing now }.goto i (.signal .bump))
  | .readState => some (m.goto i (if m.threadState = .paused then .resetSchedule .start else .base .start))
  | .resetSchedule r => some ({ m with timing := resetSchedule m.timing true }.goto i (.resetSignal r))
  | .resetSignal r => some (m.give.goto i r.afterReset)
  | .base r => some (m.goto i (if ok then r.afterBase else .threw))
  | .signal r => some (m.give.goto i (.returned r))
  | .idle | .readClock | .returned _ | .threw => none

def step (m : Machine) : Action → Option Machine
  | .call i r => if m.ops i = .idle then some (m.goto i r.entry) else none
  | .step i ok => stepOp m i ok
  | .readClock i now => if m.ops i = .readClock then some (m.goto i (.bump now)) else none
  | .store i s =>
    match m.ops i with
    | .base _ => if isValidThreadStateTransition m.threadState s then some { m with threadState := s } else none
    | _ => none
  -- After the reset the rest of `Initialize` and of `Start` is the base method again.
  | .nest i =>
    if m.ops i = .base .start ∧ (m.threadState = .uninitialized ∨ m.threadState = .terminated) then
      some (m.goto i (.resetSchedule .start))
    else none
  | .onLoop =>
    if m.loop = .outside ∧ m.threadState = .running then
      -- `exchange(false)`: a requested work wake runs `OnWorkWake` and returns.
      if m.workWakeRequested then some { m with workWakeRequested := false } else some { m with loop := .tested }
    else none
  | .sample now => if m.loop = .tested then some { m with loop := .sampled now } else none
  | .schedule =>
    match m.loop with
    | .sampled now =>
      match scheduleLocked m.timing now with
      | (t, .wait remaining) =>
        let milliseconds := getWaitMilliseconds remaining
        -- Too short to wait, or nothing to wait for: it yields.
        some { m with
          timing := t
          loop := if milliseconds > 0 ∧ m.signal.isSome then .waiting milliseconds else .outside }
      | (t, .iterate _ _ generation) => some { m with timing := t, loop := .iterating now generation }
    | _ => none
  | .woken =>
    match m.loop with
    | .waiting _ => if m.signal = some true then some { m with signal := some false, loop := .outside } else none
    | _ => none
  | .timeout =>
    match m.loop with
    | .waiting _ => some { m with loop := .outside }
    | _ => none
  | .complete endTime =>
    match m.loop with
    | .iterating now generation =>
      some { m with timing := completeLocked m.timing generation now endTime, loop := .outside }
    | _ => none

/-- What a step shows: `tested` is the flag test that found no request, and
`computed` the scheduling section. -/
inductive Event
  | requested (i : OpId)
  | updated (i : OpId)
  | gave (i : OpId)
  | workWake
  | tested
  | computed
  deriving DecidableEq, Repr

/-- The changes that the worker is to see. -/
def Event.updates (i : OpId) (e : Event) : Prop := e = .requested i ∨ e = .updated i

def event (m : Machine) : Action → Option Event
  | .step i _ =>
    match m.ops i with
    | .storeFlag => some (.requested i)
    | .updatePeriod _ | .bump _ | .resetSchedule _ => some (.updated i)
    | .resetSignal _ | .signal _ => some (.gave i)
    | _ => none
  | .store i _ => some (.updated i)
  | .onLoop => some (if m.workWakeRequested then .workWake else .tested)
  | .schedule => some .computed
  | _ => none

/-- A thread that nobody has called; `signal` when it has a signal. -/
def Machine.start (t : Timing) (s : ThreadState) (signal : Option Bool) : Machine :=
  ⟨t, s, false, signal, .outside, fun _ => .idle⟩

/-- Runs from any settings, in any state. -/
def system : System (Machine × List Event) Action :=
  System.logged { init := fun m => ∃ t s signal, m = .start t s signal, step := step } event

/-! ## One step -/

/-- The worker has tested the flag and not yet got past its wait. -/
def LoopPc.watching : LoopPc → Bool
  | .tested | .sampled _ | .waiting _ => true
  | .outside | .iterating _ _ => false

def LoopPc.waits : LoopPc → Bool
  | .waiting _ => true
  | _ => false

/-- What one step does to the flag, the signal and the calls. -/
structure Effect (m m' : Machine) (e : Option Event) : Prop where
  /-- A call gives the signal when it returns. -/
  returned : ∀ i r, m'.ops i = .returned r → m.ops i = .returned r ∨ r = .initializeThread ∨ e = some (.gave i)
  /-- It changes nothing afterwards. -/
  updates : ∀ i x, e = some x → x.updates i → ∀ r, m'.ops i ≠ .returned r
  flag : m'.workWakeRequested = true ∨ e = some .workWake ∨
    (m'.workWakeRequested = m.workWakeRequested ∧ ∀ i, e ≠ some (.requested i))
  gave : ∀ i, e = some (.gave i) → m'.signal ≠ some false
  /-- Only the worker's `Wait` consumes the signal. -/
  signal : m.signal ≠ some false → m'.signal ≠ some false ∨ m'.loop = .outside
  watching : m'.loop.watching = true → e = some .tested ∨ (m.loop.watching = true ∧ e ≠ some .tested)
  waits : m'.loop.waits = true → (e = some .computed ∧ m'.signal.isSome = true) ∨
    (m.loop.waits = true ∧ e ≠ some .computed ∧ m'.signal.isSome = m.signal.isSome)

variable {m m' : Machine} {a : Action}

/-- A step of an operation that goes to `pc`. -/
theorem Effect.goto {i : OpId} {c : OpPc} {e : Option Event} (hops : m'.ops = Function.update m.ops i c)
    (hloop : m'.loop = m.loop) (hgave : m'.signal = m.signal ∨ m' = m.give.goto i c)
    (hgive : ∀ j, e = some (.gave j) → m'.signal ≠ some false)
    (hreturned : ∀ r, c = .returned r → r = .initializeThread ∨ e = some (.gave i))
    (hupdates : ∀ j x, e = some x → x.updates j → j = i ∧ ∀ r, c ≠ .returned r)
    (hflag : m'.workWakeRequested = true ∨ (m'.workWakeRequested = m.workWakeRequested ∧ ∀ j, e ≠ some (.requested j)))
    (htested : e ≠ some .tested) (hcomputed : e ≠ some .computed) : Effect m m' e := by
  have hsome : m'.signal.isSome = m.signal.isSome := by
    rcases hgave with hs | rfl
    · rw [hs]
    · simp [Machine.goto, Machine.give]
  refine ⟨?_, ?_, ?_, hgive, ?_, ?_, ?_⟩
  · intro j r hj
    rw [hops, Function.update_apply] at hj
    split at hj
    · rename_i hji
      subst hji
      exact .inr (hreturned r hj)
    · exact .inl hj
  · intro j x hx hu r hj
    obtain ⟨rfl, hpc⟩ := hupdates j x hx hu
    rw [hops, Function.update_self] at hj
    exact hpc r hj
  · rcases hflag with hf | hf
    · exact .inl hf
    · exact .inr (.inr hf)
  · intro hs
    left
    rcases hgave with he | rfl
    · rwa [he]
    · cases hm : m.signal <;> simp [Machine.goto, Machine.give, hm]
  · intro hw
    rw [hloop] at hw
    exact .inr ⟨hw, htested⟩
  · intro hw
    rw [hloop] at hw
    exact .inr ⟨hw, hcomputed, hsome⟩

/-- A step of the worker. -/
theorem Effect.worker {e : Option Event} (hops : m'.ops = m.ops) (hupdates : ∀ i x, e = some x → ¬ x.updates i)
    (hgave : ∀ i, e ≠ some (.gave i))
    (hflag : e = some .workWake ∨ m'.workWakeRequested = m.workWakeRequested)
    (hsignal : m'.signal = m.signal ∨ m'.loop = .outside)
    (hwatching : m'.loop.watching = true → e = some .tested ∨ (m.loop.watching = true ∧ e ≠ some .tested))
    (hwaits : m'.loop.waits = true → e = some .computed ∧ m'.signal.isSome = true) : Effect m m' e := by
  refine ⟨?_, ?_, ?_, ?_, ?_, hwatching, fun hw => .inl (hwaits hw)⟩
  · intro i r hi
    rw [hops] at hi
    exact .inl hi
  · intro i x hx hu
    exact absurd hu (hupdates i x hx)
  · rcases hflag with hf | hf
    · exact .inr (.inl hf)
    · refine .inr (.inr ⟨hf, ?_⟩)
      intro i hi
      exact hupdates i _ hi (.inl rfl)
  · intro i hi
    exact absurd hi (hgave i)
  · intro hs
    rcases hsignal with he | ho
    · rw [he]
      exact .inl hs
    · exact .inr ho

theorem give_signal (m : Machine) : m.give.signal ≠ some false := by
  cases hm : m.signal <;> simp [Machine.give, hm]

theorem Event.updates_op {i j : OpId} (h : (Event.updated i).updates j ∨ (Event.requested i).updates j) : j = i := by
  rcases h with (h | h) | (h | h) <;> cases h <;> rfl

theorem stepOp_effect {i : OpId} {ok : Bool} (h : stepOp m i ok = some m') : Effect m m' (event m (.step i ok)) := by
  unfold stepOp at h
  split at h <;> rename_i hpc <;> simp only [event, hpc]
  case h_1 =>
    cases h
    refine Effect.goto rfl rfl (.inl rfl) nofun nofun ?_ (.inl rfl) nofun nofun
    rintro j x ⟨⟩ hu
    exact ⟨Event.updates_op (.inr hu), nofun⟩
  case h_2 | h_3 =>
    cases h
    refine Effect.goto rfl rfl (.inl rfl) nofun nofun ?_ (.inr ⟨rfl, nofun⟩) nofun nofun
    rintro j x ⟨⟩ hu
    exact ⟨Event.updates_op (.inl hu), nofun⟩
  case h_4 =>
    cases h
    refine Effect.goto rfl rfl (.inl rfl) nofun ?_ nofun (.inr ⟨rfl, nofun⟩) nofun nofun
    intro r hr
    split at hr <;> cases hr
  case h_5 =>
    cases h
    refine Effect.goto rfl rfl (.inl rfl) nofun nofun ?_ (.inr ⟨rfl, nofun⟩) nofun nofun
    rintro j x ⟨⟩ hu
    exact ⟨Event.updates_op (.inl hu), nofun⟩
  case h_6 r =>
    cases h
    refine Effect.goto rfl rfl (.inr rfl) (fun _ _ => give_signal m) (fun _ _ => .inr rfl) ?_ (.inr ⟨rfl, nofun⟩)
      nofun nofun
    rintro j x ⟨⟩ (hu | hu) <;> cases hu
  case h_7 r =>
    cases h
    refine Effect.goto rfl rfl (.inl rfl) nofun ?_ nofun (.inr ⟨rfl, nofun⟩) nofun nofun
    intro r' hr
    split at hr
    · cases r <;> cases hr
      exact .inl rfl
    · cases hr
  case h_8 r =>
    cases h
    refine Effect.goto rfl rfl (.inr rfl) (fun _ _ => give_signal m) (fun _ _ => .inr rfl) ?_ (.inr ⟨rfl, nofun⟩)
      nofun nofun
    rintro j x ⟨⟩ (hu | hu) <;> cases hu
  all_goals cases h

theorem step_effect (h : step m a = some m') : Effect m m' (event m a) := by
  cases a with
  | call i r =>
    simp only [step] at h
    split at h <;> cases h
    refine Effect.goto rfl rfl (.inl rfl) nofun ?_ nofun (.inr ⟨rfl, nofun⟩) nofun nofun
    intro r' hr
    cases r <;> cases hr
  | step i ok => exact stepOp_effect h
  | readClock i now =>
    simp only [step] at h
    split at h <;> cases h
    exact Effect.goto rfl rfl (.inl rfl) nofun nofun nofun (.inr ⟨rfl, nofun⟩) nofun nofun
  | store i s =>
    simp only [step] at h
    split at h
    · rename_i r hpc
      split at h <;> cases h
      refine Effect.goto (i := i) (c := .base r) ?_ rfl (.inl rfl) nofun nofun ?_ (.inr ⟨rfl, nofun⟩) nofun nofun
      · rw [← hpc, Function.update_eq_self]
      · rintro j x ⟨⟩ hu
        exact ⟨Event.updates_op (.inl hu), nofun⟩
    · cases h
  | nest i =>
    simp only [step] at h
    split at h <;> cases h
    exact Effect.goto rfl rfl (.inl rfl) nofun nofun nofun (.inr ⟨rfl, nofun⟩) nofun nofun
  | onLoop =>
    simp only [step] at h
    split at h
    · simp only [event]
      split at h <;> rename_i hf <;> cases h
      · rw [if_pos hf]
        rename_i hloop
        refine Effect.worker rfl ?_ nofun (.inl rfl) (.inl rfl) ?_ ?_
        · rintro i x ⟨⟩ (hu | hu) <;> cases hu
        · intro hw
          simp [hloop.1, LoopPc.watching] at hw
        · intro hw
          simp [hloop.1, LoopPc.waits] at hw
      · rw [if_neg hf]
        refine Effect.worker rfl ?_ nofun (.inr rfl) (.inl rfl) (fun _ => .inl rfl) nofun
        rintro i x ⟨⟩ (hu | hu) <;> cases hu
    · cases h
  | sample now =>
    simp only [step] at h
    split at h <;> cases h
    rename_i hloop
    refine Effect.worker rfl nofun nofun (.inr rfl) (.inl rfl) (fun _ => .inr ⟨?_, nofun⟩) nofun
    rw [hloop]
    rfl
  | schedule =>
    simp only [step] at h
    split at h
    · rename_i now hloop
      split at h <;> cases h
      · refine Effect.worker rfl ?_ nofun (.inr rfl) (.inl rfl) (fun _ => .inr ⟨?_, nofun⟩) ?_
        · rintro i x ⟨⟩ (hu | hu) <;> cases hu
        · rw [hloop]
          rfl
        · intro hw
          refine ⟨rfl, ?_⟩
          dsimp only at hw ⊢
          split at hw
          · rename_i hc
            exact hc.2
          · cases hw
      · refine Effect.worker rfl ?_ nofun (.inr rfl) (.inl rfl) nofun nofun
        rintro i x ⟨⟩ (hu | hu) <;> cases hu
    · cases h
  | woken =>
    simp only [step] at h
    split at h
    · split at h <;> cases h
      exact Effect.worker rfl nofun nofun (.inr rfl) (.inr rfl) nofun nofun
    · cases h
  | timeout =>
    simp only [step] at h
    split at h <;> cases h
    exact Effect.worker rfl nofun nofun (.inr rfl) (.inl rfl) nofun nofun
  | complete endTime =>
    simp only [step] at h
    split at h <;> cases h
    exact Effect.worker rfl nofun nofun (.inr rfl) (.inl rfl) nofun nofun

/-! ## Runs -/

/-- A signal that was given since the last `mark` is still set. -/
def Signalled (mark : Event) (l : List Event) (signal : Option Bool) : Prop :=
  ∀ l₁ l₂ i, l = l₁ ++ mark :: l₂ → mark ∉ l₂ → .gave i ∈ l₂ → signal ≠ some false

/-- The worker's wait misses no change, and no request is lost. -/
structure WakeLog (x : Machine × List Event) : Prop where
  /-- A call that changed something after the worker computed its timeout, and
  has returned, left the signal set. -/
  computed : x.1.loop.waits = true → ∀ l₁ l₂ i r e, x.2 = l₁ ++ .computed :: l₂ → .computed ∉ l₂ →
    e ∈ l₂ → e.updates i → x.1.ops i = .returned r → r ≠ .initializeThread → x.1.signal = some true
  /-- So did one that changed something after the worker tested the flag. -/
  tested : x.1.loop.waits = true → ∀ l₁ l₂ i r e, x.2 = l₁ ++ .tested :: l₂ → .tested ∉ l₂ →
    e ∈ l₂ → e.updates i → x.1.ops i = .returned r → r ≠ .initializeThread → x.1.signal = some true
  /-- A request is still set, or `OnWorkWake` began after it. -/
  requested : ∀ l₁ i l₂, x.2 = l₁ ++ .requested i :: l₂ → x.1.workWakeRequested = true ∨ .workWake ∈ l₂

/-- What the steps keep. -/
structure Inv (x : Machine × List Event) : Prop where
  answered : ∀ i r, x.1.ops i = .returned r → r ≠ .initializeThread → ∀ l₁ e l₂, x.2 = l₁ ++ e :: l₂ →
    e.updates i → .gave i ∈ l₂
  requested : ∀ l₁ i l₂, x.2 = l₁ ++ .requested i :: l₂ → x.1.workWakeRequested = true ∨ .workWake ∈ l₂
  tested : x.1.loop.watching = true → Signalled .tested x.2 x.1.signal
  computed : x.1.loop.waits = true → Signalled .computed x.2 x.1.signal
  exists_signal : x.1.loop.waits = true → x.1.signal.isSome = true

section
variable {l : List Event} {e : Option Event} {mark : Event} {signal signal' : Option Bool}

theorem Signalled.marked : Signalled mark (l ++ (some mark).toList) signal := by
  intro l₁ l₂ i hl hno hg
  rcases System.split_append hl with ⟨l₃, -, rfl⟩ | ⟨-, -, rfl⟩
  · exact absurd (by simp) hno
  · cases hg

theorem Signalled.append (h : Signalled mark l signal) (he : e ≠ some mark)
    (hs : signal ≠ some false → signal' ≠ some false)
    (hg : ∀ i, e = some (.gave i) → signal' ≠ some false) : Signalled mark (l ++ e.toList) signal' := by
  intro l₁ l₂ i hl hno hi
  rcases System.split_append hl with ⟨l₃, hl', rfl⟩ | ⟨hm, -, -⟩
  · rcases List.mem_append.1 hi with hi | hi
    · exact hs (h l₁ l₃ i hl' (fun hm => hno (List.mem_append_left _ hm)) hi)
    · exact hg i (Option.mem_toList.1 hi)
  · exact absurd hm he

theorem LoopPc.watching_of_waits {loop : LoopPc} (h : loop.waits = true) : loop.watching = true := by
  cases loop <;> first | rfl | cases h

theorem Inv.step (h : Inv (m, l)) (hs : Effect m m' e) : Inv (m', l ++ e.toList) := by
  -- While the worker has not got past its wait the signal stays set.
  have hkeep : m'.loop.watching = true → m.signal ≠ some false → m'.signal ≠ some false := by
    intro hw hsig
    rcases hs.signal hsig with h | h
    · exact h
    · rw [h] at hw
      cases hw
  refine ⟨?_, ?_, ?_, ?_, ?_⟩
  · intro i r hi hr l₁ x l₂ hl hu
    rcases System.split_append hl with ⟨l₃, hl', rfl⟩ | ⟨he, -, -⟩
    · rcases hs.returned i r hi with hold | hini | hgave
      · exact List.mem_append_left _ (h.answered i r hold hr l₁ x l₃ hl' hu)
      · exact absurd hini hr
      · rw [hgave]
        simp
    · exact absurd hi (hs.updates i x he hu r)
  · intro l₁ i l₂ hl
    rcases hs.flag with hf | hwake | ⟨hsame, hno⟩
    · exact .inl hf
    · rcases System.split_append hl with ⟨l₃, hl', rfl⟩ | ⟨he, -, -⟩
      · right
        rw [hwake]
        simp
      · rw [hwake] at he
        cases he
    · rcases System.split_append hl with ⟨l₃, hl', rfl⟩ | ⟨he, -, -⟩
      · rcases h.requested l₁ i l₃ hl' with hf | hw
        · exact .inl (hsame.trans hf)
        · exact .inr (List.mem_append_left _ hw)
      · exact absurd he (hno i)
  · intro hw
    rcases hs.watching hw with rfl | ⟨hw', hne⟩
    · exact Signalled.marked
    · exact (h.tested hw').append hne (hkeep hw) hs.gave
  · intro hw
    rcases hs.waits hw with ⟨rfl, -⟩ | ⟨hw', hne, -⟩
    · exact Signalled.marked
    · exact (h.computed hw').append hne (hkeep (LoopPc.watching_of_waits hw)) hs.gave
  · intro hw
    rcases hs.waits hw with ⟨-, hsome⟩ | ⟨hw', -, hsome⟩
    · exact hsome
    · exact hsome.trans (h.exists_signal hw')

/-- What was given since the mark is set, and a returned call gave after it
changed something. -/
theorem Inv.signalled {x : Machine × List Event} (h : Inv x) (hw : x.1.loop.waits = true)
    (hm : Signalled mark x.2 x.1.signal) {l₁ l₂ : List Event} {i : OpId} {r : Request} {u : Event}
    (hl : x.2 = l₁ ++ mark :: l₂) (hno : mark ∉ l₂) (hu : u ∈ l₂) (hi : u.updates i) (hr : x.1.ops i = .returned r)
    (hne : r ≠ .initializeThread) : x.1.signal = some true := by
  obtain ⟨a, b, rfl⟩ := List.append_of_mem hu
  have hgave : .gave i ∈ b := h.answered i r hr hne (l₁ ++ mark :: a) u b (by simp [hl]) hi
  have hset := hm l₁ (a ++ u :: b) i hl hno (by simp [hgave])
  obtain ⟨b, hb⟩ := Option.isSome_iff_exists.1 (h.exists_signal hw)
  rw [hb] at hset ⊢
  cases b
  · exact absurd rfl hset
  · rfl

end

/-- No wake of the scheduler is lost. -/
theorem wake_log (x : Machine × List Event) (h : system.Reachable x) : WakeLog x := by
  have hinv : Inv x := by
    refine h.invariant (fun x hx => ?_) fun x a y hi _ hs => ?_
    · obtain ⟨⟨t, s, signal, hm⟩, hl⟩ := hx
      obtain ⟨m, l⟩ := x
      cases hm
      cases hl
      refine ⟨nofun, ?_, nofun, nofun, nofun⟩
      intro l₁ i l₂ hl
      simp at hl
    · obtain ⟨m, l⟩ := x
      obtain ⟨m', l'⟩ := y
      obtain ⟨hst, he⟩ := System.logged_step.1 hs
      cases he
      exact Inv.step hi (step_effect hst)
  refine ⟨?_, ?_, hinv.requested⟩
  · intro hw l₁ l₂ i r e hl hno he hu hr hne
    exact hinv.signalled hw (hinv.computed hw) hl hno he hu hr hne
  · intro hw l₁ l₂ i r e hl hno he hu hr hne
    exact hinv.signalled hw (hinv.tested (LoopPc.watching_of_waits hw)) hl hno he hu hr hne

/-- A period of two milliseconds is set while the worker waits for one of ten. -/
def setWhileWaiting : List Action :=
  [.onLoop, .sample 5, .schedule, .complete 6, .onLoop, .sample 7, .schedule, .call 0 (.setIterationPeriod 2000000),
    .step 0 true, .step 0 true]

/-- The worker is blocked, and its signal is set. -/
theorem woken_by_period : ∃ x, system.Reachable x ∧ WakeLog x ∧ x.1.loop = .waiting 9 ∧ x.1.signal = some true ∧
    x.1.ops 0 = .returned (.setIterationPeriod 2000000) := by
  have hrun : (system.replay (.start { iterationPeriod := 10000000 } .running (some false), []) setWhileWaiting).map
      (fun x => (x.1.loop, x.1.signal, x.1.ops 0)) =
      some (.waiting 9, some true, .returned (.setIterationPeriod 2000000)) := by
    decide
  obtain ⟨x, hs, hp⟩ := Option.map_eq_some_iff.1 hrun
  simp only [Prod.mk.injEq] at hp
  have hinit : system.init (.start { iterationPeriod := 10000000 } .running (some false), []) :=
    ⟨⟨_, _, _, rfl⟩, rfl⟩
  have hr := System.reachable_of_replay hinit hs
  exact ⟨x, hr, wake_log x hr, hp⟩

end ESPressio.Precision.Wake
