import ESPressioThreads.Lib.Token
import ESPressioThreads.Lifecycle.Calls
/-!
# The generation protocol

One worker at a time: `Initialize` passes its checks, creates the worker and
opens its gate; the worker exits and sends a record, or a failing `Initialize`
sends it; the dispatcher deletes the worker, signals the exit and clears the
pending flag. The token of `Lib.Token` is the current generation, and `Fits`
says what the atomics, the queue and the tasks are at each of its stages.
-/

namespace ESPressio.Lifecycle

/-- The atomics, signals and records the protocol works on. -/
structure Registers where
  taskHandle : Option Gen
  terminationDispatchPending : Bool
  taskExitFinalizationStarted : Bool
  taskStartGate : Bool
  taskExited : Bool
  queue : List Gen
  created : Nat
  killed : List Gen

/-- Where the current generation is. -/
inductive Stage
  /-- No task, no record. -/
  | quiet
  /-- `Initialize` has checked the handle, and resets. -/
  | checked
  | exitedReset
  | gateReset
  | ready
  | made (g : Gen)
  | live (g : Gen)
  /-- `Initialize` failed and deletes the worker. -/
  | failing (g : Gen) (task : Option Gen)
  | failed (g : Gen)
  /-- The gate is open. -/
  | gated (g : Gen)
  | looping (g : Gen)
  /-- The exit is claimed, and `task` is still there. -/
  | claimed (g : Gen) (task : Option Gen)
  | sending (g : Gen) (task : Option Gen)
  /-- The queue took no record. -/
  | unsent (task : Option Gen)
  | lost (g : Gen)
  | queued (g : Gen)
  | dispatching (g : Gen)
  | deleting (g : Gen) (task : Option Gen)
  | delivering (g : Gen)
  | signalled (g : Gen)
  deriving DecidableEq

/-- The stages at which no call has the generation in hand. -/
def Stage.rest : Stage → Bool
  | .quiet | .gated _ | .lost _ | .queued _ => true
  | _ => false

/-- Nothing of a generation is left but its record. -/
def Stage.tail : Stage → Bool
  | .queued _ | .dispatching _ | .deleting _ _ | .delivering _ | .signalled _ | .quiet => true
  | _ => false

/-! ## What one call does -/

/-- A step of a call on the registers, with the stage it has in hand before
and after. -/
inductive Move : Option Stage → Registers → Option Stage → Registers → Prop
  | skip (l : Option Stage) (r : Registers) : Move l r l r
  | waitExited (r : Registers) : Move none r none { r with taskExited := false }
  | check (r : Registers) : r.taskHandle = none → Move none r (some .checked) r
  | resetExited (r : Registers) : Move (some .checked) r (some .exitedReset) { r with taskExited := false }
  | resetGate (r : Registers) : Move (some .exitedReset) r (some .gateReset) { r with taskStartGate := false }
  | resetFinalization (r : Registers) :
      Move (some .gateReset) r (some .ready) { r with taskExitFinalizationStarted := false }
  | create (r : Registers) : Move (some .ready) r (some (.made r.created)) { r with created := r.created + 1 }
  | createFailed (r : Registers) : Move (some .ready) r none r
  | publish (g : Gen) (r : Registers) : r.taskHandle = none →
      Move (some (.made g)) r (some (.live g)) { r with taskHandle := some g }
  | publishLost (g : Gen) (r : Registers) : r.taskHandle ≠ none →
      Move (some (.made g)) r none { r with killed := g :: r.killed }
  | giveGate (g : Gen) (r : Registers) : Move (some (.live g)) r none { r with taskStartGate := true }
  | fail (g : Gen) (r : Registers) :
      Move (some (.live g)) r (some (.failing g r.taskHandle)) { r with taskHandle := none }
  | killNone (g : Gen) (r : Registers) : Move (some (.failing g none)) r (some (.failed g)) r
  | kill (g h : Gen) (r : Registers) :
      Move (some (.failing g (some h))) r (some (.failed g)) { r with killed := h :: r.killed }
  | finalize (g : Gen) (r : Registers) : r.taskExitFinalizationStarted = false →
      Move (some (.failed g)) r (some (.claimed g none)) { r with taskExitFinalizationStarted := true }
  | finalized (g : Gen) (r : Registers) : r.taskExitFinalizationStarted = true → Move (some (.failed g)) r none r
  | enter (g : Gen) (r : Registers) : r.taskStartGate = true → g < r.created → g ∉ r.killed →
      Move none r (some (.looping g)) { r with taskStartGate := false }
  | exit (g : Gen) (r : Registers) : r.taskExitFinalizationStarted = false →
      Move (some (.looping g)) r (some (.claimed g (some g))) { r with taskExitFinalizationStarted := true }
  | exited (g : Gen) (r : Registers) : r.taskExitFinalizationStarted = true → Move (some (.looping g)) r none r
  | storePending (g : Gen) (task : Option Gen) (r : Registers) :
      Move (some (.claimed g task)) r (some (.sending g task)) { r with terminationDispatchPending := true }
  | send (g : Gen) (task : Option Gen) (r : Registers) :
      Move (some (.sending g task)) r none { r with queue := r.queue ++ [g] }
  | sendFailed (g : Gen) (task : Option Gen) (r : Registers) : Move (some (.sending g task)) r (some (.unsent task)) r
  | clearUnsent (task : Option Gen) (r : Registers) :
      Move (some (.unsent task)) r none { r with terminationDispatchPending := false }
  | receive (g : Gen) (queue : List Gen) (r : Registers) : r.queue = g :: queue →
      Move none r (some (.dispatching g)) { r with queue := queue }
  | exchange (g : Gen) (r : Registers) :
      Move (some (.dispatching g)) r (some (.deleting g r.taskHandle)) { r with taskHandle := none }
  | deleteNone (g : Gen) (r : Registers) : Move (some (.deleting g none)) r (some (.delivering g)) r
  | delete (g h : Gen) (r : Registers) :
      Move (some (.deleting g (some h))) r (some (.delivering g)) { r with killed := h :: r.killed }
  | giveExited (g : Gen) (r : Registers) :
      Move (some (.delivering g)) r (some (.signalled g)) { r with taskExited := true }
  | clearPending (g : Gen) (r : Registers) :
      Move (some (.signalled g)) r none { r with terminationDispatchPending := false }

/-! ## The stages -/

/-- The handle, the pending flag, the gate, the queue, and the task that is
not deleted. -/
structure Registers.Has (r : Registers) (task : Option Gen) (pending gate : Bool) (queue : List Gen)
    (alive : Option Gen) : Prop where
  handle : r.taskHandle = task
  pending : r.terminationDispatchPending = pending
  gate : r.taskStartGate = gate
  queue : r.queue = queue
  alive : ∀ g, g < r.created → g ∉ r.killed → alive = some g

/-- A record of `g` finds the worker `g`, or no task. -/
def TaskOf (g : Gen) (task : Option Gen) : Prop := task = none ∨ task = some g

/-- What holds at a stage. -/
def Stage.Fits (r : Registers) : Stage → Prop
  | .quiet | .checked => r.Has none false false [] none
  | .exitedReset | .gateReset => r.Has none false false [] none ∧ r.taskExited = false
  | .ready => r.Has none false false [] none ∧ r.taskExited = false ∧ r.taskExitFinalizationStarted = false
  | .made g => r.Has none false false [] (some g) ∧ r.taskExited = false ∧ r.taskExitFinalizationStarted = false
  | .live g | .looping g =>
    r.Has (some g) false false [] (some g) ∧ r.taskExited = false ∧ r.taskExitFinalizationStarted = false
  | .failing g task =>
    task = some g ∧ r.Has none false false [] (some g) ∧ r.taskExited = false ∧ r.taskExitFinalizationStarted = false
  | .failed _ => r.Has none false false [] none ∧ r.taskExited = false ∧ r.taskExitFinalizationStarted = false
  | .gated g =>
    r.Has (some g) false true [] (some g) ∧ r.taskExited = false ∧ r.taskExitFinalizationStarted = false
  | .claimed g task => TaskOf g task ∧ r.Has task false false [] task ∧ r.taskExited = false
  | .sending g task => TaskOf g task ∧ r.Has task true false [] task ∧ r.taskExited = false
  | .unsent task => r.Has task true false [] task ∧ r.taskExited = false
  | .lost g => r.Has (some g) false false [] (some g) ∧ r.taskExited = false
  | .queued g => ∃ task, TaskOf g task ∧ r.Has task true false [g] task ∧ r.taskExited = false
  | .dispatching g => ∃ task, TaskOf g task ∧ r.Has task true false [] task ∧ r.taskExited = false
  | .deleting g task => TaskOf g task ∧ r.Has none true false [] task ∧ r.taskExited = false
  | .delivering _ => r.Has none true false [] none ∧ r.taskExited = false
  | .signalled _ => r.Has none true false [] none

/-- How the stage moves when a call has it in hand as given before and after. -/
inductive Passes : Option Stage → Stage → Option Stage → Stage → Prop
  | keep (st : Stage) : Passes none st none st
  | hold (st st' : Stage) : st.rest = false → st'.rest = false → Passes (some st) st (some st') st'
  | check : Passes none .quiet (some .checked) .checked
  | createFailed : Passes (some .ready) .ready none .quiet
  | giveGate (g : Gen) : Passes (some (.live g)) (.live g) none (.gated g)
  | enter (g : Gen) : Passes none (.gated g) (some (.looping g)) (.looping g)
  | send (g : Gen) (task : Option Gen) : Passes (some (.sending g task)) (.sending g task) none (.queued g)
  | unsent : Passes (some (.unsent none)) (.unsent none) none .quiet
  | lost (g : Gen) : Passes (some (.unsent (some g))) (.unsent (some g)) none (.lost g)
  | receive (g : Gen) : Passes none (.queued g) (some (.dispatching g)) (.dispatching g)
  | dispatched (g : Gen) : Passes (some (.signalled g)) (.signalled g) none .quiet

variable {l l' : Option Stage} {r r' : Registers} {st st' : Stage}

theorem Stage.gated_of_gate (hf : st.Fits r) (hg : r.taskStartGate = true) : ∃ g, st = .gated g := by
  have hfalse : ∀ {task pending queue alive}, ¬ r.Has task pending false queue alive := by
    intro _ _ _ _ h
    rw [h.gate] at hg
    cases hg
  cases st with
  | gated g => exact ⟨g, rfl⟩
  | quiet | checked | signalled => exact (hfalse hf).elim
  | exitedReset | gateReset | ready | made | live | looping | failed | unsent | lost | delivering =>
    exact (hfalse hf.1).elim
  | failing | claimed | sending | deleting => exact (hfalse hf.2.1).elim
  | queued | dispatching =>
    obtain ⟨task, -, h, -⟩ := hf
    exact (hfalse h).elim

theorem Stage.queued_of_queue {g : Gen} {queue : List Gen} (hf : st.Fits r) (hq : r.queue = g :: queue) :
    st = .queued g ∧ queue = [] := by
  have hnil : ∀ {task pending gate alive}, ¬ r.Has task pending gate [] alive := by
    intro _ _ _ _ h
    rw [h.queue] at hq
    cases hq
  cases st with
  | queued g' =>
    obtain ⟨task, -, h, -⟩ := hf
    rw [h.queue] at hq
    cases hq
    exact ⟨rfl, rfl⟩
  | quiet | checked | signalled => exact (hnil hf).elim
  | exitedReset | gateReset | ready | made | live | looping | failed | unsent | lost | delivering | gated =>
    exact (hnil hf.1).elim
  | failing | claimed | sending | deleting => exact (hnil hf.2.1).elim
  | dispatching =>
    obtain ⟨task, -, h, -⟩ := hf
    exact (hnil h).elim

theorem Stage.Fits.queue_cases (hf : st.Fits r) : r.queue = [] ∨ ∃ g, st = .queued g ∧ r.queue = [g] := by
  cases hq : r.queue with
  | nil => exact .inl rfl
  | cons g queue =>
    obtain ⟨hst, rfl⟩ := Stage.queued_of_queue hf hq
    exact .inr ⟨g, hst, rfl⟩

/-- No step puts a signal where the stage says there is none. -/
theorem Stage.Fits.clear_taskExited (h : st.Fits r) : st.Fits { r with taskExited := false } := by
  have hh : ∀ {task pending gate queue alive}, r.Has task pending gate queue alive →
      Registers.Has { r with taskExited := false } task pending gate queue alive :=
    fun h => ⟨h.handle, h.pending, h.gate, h.queue, h.alive⟩
  cases st with
  | quiet | checked | signalled => exact hh h
  | exitedReset | gateReset | unsent | lost | delivering => exact ⟨hh h.1, rfl⟩
  | ready | made | live | looping | failed | gated => exact ⟨hh h.1, rfl, h.2.2⟩
  | failing => exact ⟨h.1, hh h.2.1, rfl, h.2.2.2⟩
  | claimed | sending | deleting => exact ⟨h.1, hh h.2.1, rfl⟩
  | queued | dispatching =>
    obtain ⟨task, ht, h, -⟩ := h
    exact ⟨task, ht, hh h, rfl⟩

theorem Registers.Has.kill {task alive : Option Gen} {pending gate : Bool} {queue : List Gen} {g : Gen}
    (h : r.Has task pending gate queue alive) (ha : alive = none ∨ alive = some g) :
    Registers.Has { r with killed := g :: r.killed } task pending gate queue none := by
  refine ⟨h.handle, h.pending, h.gate, h.queue, fun g' hc hk => ?_⟩
  simp only [List.mem_cons, not_or] at hk
  have hg := h.alive g' hc hk.2
  rcases ha with ha | ha
  · exact absurd (ha.symm.trans hg) nofun
  · rw [ha] at hg
    exact absurd (Option.some.inj hg).symm hk.1

theorem Move.looping {g : Gen} {x : Stage} (h : Move (some x) r (some (.looping g)) r') : x = .looping g := by
  cases h
  rfl

theorem Move.checked {x : Stage} (h : Move (some x) r (some .checked) r') : x = .checked := by
  cases h
  rfl

theorem Move.handle_of_check (h : Move none r (some .checked) r') : r.taskHandle = none := by
  cases h with
  | check _ hh => exact hh

/-- Only `Initialize` creates tasks. -/
theorem Move.created (hm : Move l r l' r') : r'.created = r.created ∨ l' = some (.made r.created) := by
  cases hm <;> first | exact .inl rfl | exact .inr rfl

theorem Move.created_le (hm : Move l r l' r') : r.created ≤ r'.created := by
  cases hm <;> first | exact Nat.le_refl _ | exact Nat.le_succ _

theorem Move.killed (hm : Move l r l' r') {g : Gen} (hg : g ∈ r.killed) : g ∈ r'.killed := by
  cases hm <;> first | exact hg | exact List.mem_cons_of_mem _ hg

/-- A step of a call that has the current generation in hand, or none, leaves
a stage that fits; only the check of `Initialize` needs the stage `quiet`. -/
theorem Move.passes (hm : Move l r l' r') (ht : l = none ∨ (l = some st ∧ st.rest = false)) (hf : st.Fits r)
    (hcheck : l = none → l' = some .checked → st = .quiet) : ∃ st', Passes l st l' st' ∧ st'.Fits r' := by
  -- A call with a stage in hand has the current one.
  have hst : ∀ {x : Stage}, l = some x → st = x := by
    rintro x rfl
    rcases ht with ht | ⟨ht, -⟩
    · cases ht
    · exact (Option.some.inj ht).symm
  cases hm with
  | skip =>
    rcases ht with rfl | ⟨rfl, hr⟩
    · exact ⟨st, .keep st, hf⟩
    · exact ⟨st, .hold st st hr hr, hf⟩
  | waitExited => exact ⟨st, .keep st, hf.clear_taskExited⟩
  | check r hh =>
    obtain rfl := hcheck rfl rfl
    exact ⟨_, .check, hf⟩
  | resetExited r =>
    obtain rfl := hst rfl
    exact ⟨_, .hold _ _ rfl rfl, ⟨hf.handle, hf.pending, hf.gate, hf.queue, hf.alive⟩, rfl⟩
  | resetGate r =>
    obtain rfl := hst rfl
    obtain ⟨hf, he⟩ := hf
    exact ⟨_, .hold _ _ rfl rfl, ⟨hf.handle, hf.pending, rfl, hf.queue, hf.alive⟩, he⟩
  | resetFinalization r =>
    obtain rfl := hst rfl
    obtain ⟨hf, he⟩ := hf
    exact ⟨_, .hold _ _ rfl rfl, ⟨hf.handle, hf.pending, hf.gate, hf.queue, hf.alive⟩, he, rfl⟩
  | create r =>
    obtain rfl := hst rfl
    obtain ⟨hf, he, hs⟩ := hf
    refine ⟨_, .hold _ _ rfl rfl, ⟨hf.handle, hf.pending, hf.gate, hf.queue, fun g hg hk => ?_⟩, he, hs⟩
    rcases Nat.lt_succ_iff_lt_or_eq.1 hg with hlt | rfl
    · cases hf.alive g hlt hk
    · rfl
  | createFailed r =>
    obtain rfl := hst rfl
    exact ⟨_, .createFailed, hf.1⟩
  | publish g r hh =>
    obtain rfl := hst rfl
    obtain ⟨hf, he, hs⟩ := hf
    exact ⟨_, .hold _ _ rfl rfl, ⟨rfl, hf.pending, hf.gate, hf.queue, hf.alive⟩, he, hs⟩
  -- At this stage there is no task handle, so the exchange does not fail.
  | publishLost g r hh =>
    obtain rfl := hst rfl
    exact absurd hf.1.handle hh
  | giveGate g r =>
    obtain rfl := hst rfl
    obtain ⟨hf, he, hs⟩ := hf
    exact ⟨_, .giveGate g, ⟨hf.handle, hf.pending, rfl, hf.queue, hf.alive⟩, he, hs⟩
  | fail g r =>
    obtain rfl := hst rfl
    obtain ⟨hf, he, hs⟩ := hf
    exact ⟨_, .hold _ _ rfl rfl, hf.handle, ⟨rfl, hf.pending, hf.gate, hf.queue, hf.alive⟩, he, hs⟩
  | killNone g r =>
    obtain rfl := hst rfl
    cases hf.1
  | kill g h r =>
    obtain rfl := hst rfl
    obtain ⟨ht, hf, he, hs⟩ := hf
    obtain rfl := Option.some.inj ht
    exact ⟨_, .hold _ _ rfl rfl, hf.kill (.inr rfl), he, hs⟩
  | finalize g r hs =>
    obtain rfl := hst rfl
    obtain ⟨hf, he, -⟩ := hf
    exact ⟨_, .hold _ _ rfl rfl, .inl rfl, ⟨hf.handle, hf.pending, hf.gate, hf.queue, hf.alive⟩, he⟩
  -- The flag was reset for this generation, and its worker did not start.
  | finalized g r hs =>
    obtain rfl := hst rfl
    exact absurd (hf.2.2.symm.trans hs) nofun
  | enter g r hg hc hk =>
    obtain ⟨g', rfl⟩ := Stage.gated_of_gate hf hg
    obtain ⟨hf, he, hs⟩ := hf
    obtain rfl := Option.some.inj (hf.alive g hc hk)
    exact ⟨_, .enter _, ⟨hf.handle, hf.pending, rfl, hf.queue, hf.alive⟩, he, hs⟩
  | exit g r hs =>
    obtain rfl := hst rfl
    obtain ⟨hf, he, -⟩ := hf
    exact ⟨_, .hold _ _ rfl rfl, .inr rfl, ⟨hf.handle, hf.pending, hf.gate, hf.queue, hf.alive⟩, he⟩
  -- The same for a worker that was released: `Initialize` did not fail.
  | exited g r hs =>
    obtain rfl := hst rfl
    exact absurd (hf.2.2.symm.trans hs) nofun
  | storePending g task r =>
    obtain rfl := hst rfl
    obtain ⟨ht, hf, he⟩ := hf
    exact ⟨_, .hold _ _ rfl rfl, ht, ⟨hf.handle, rfl, hf.gate, hf.queue, hf.alive⟩, he⟩
  | send g task r =>
    obtain rfl := hst rfl
    obtain ⟨ht, hf, he⟩ := hf
    exact ⟨_, .send g task, task, ht,
      ⟨hf.handle, hf.pending, hf.gate, by simp only [hf.queue, List.nil_append], hf.alive⟩, he⟩
  | sendFailed g task r =>
    obtain rfl := hst rfl
    exact ⟨_, .hold _ _ rfl rfl, hf.2⟩
  | clearUnsent task r =>
    obtain rfl := hst rfl
    obtain ⟨hf, he⟩ := hf
    cases task with
    | none => exact ⟨_, .unsent, hf.handle, rfl, hf.gate, hf.queue, hf.alive⟩
    | some g => exact ⟨_, .lost g, ⟨hf.handle, rfl, hf.gate, hf.queue, hf.alive⟩, he⟩
  | receive g queue r hq =>
    obtain ⟨rfl, rfl⟩ := Stage.queued_of_queue hf hq
    obtain ⟨task, ht, hf, he⟩ := hf
    exact ⟨_, .receive g, task, ht, ⟨hf.handle, hf.pending, hf.gate, rfl, hf.alive⟩, he⟩
  | exchange g r =>
    obtain rfl := hst rfl
    obtain ⟨task, ht, hf, he⟩ := hf
    obtain rfl := hf.handle
    exact ⟨_, .hold _ _ rfl rfl, ht, ⟨rfl, hf.pending, hf.gate, hf.queue, hf.alive⟩, he⟩
  | deleteNone g r =>
    obtain rfl := hst rfl
    exact ⟨_, .hold _ _ rfl rfl, hf.2⟩
  | delete g h r =>
    obtain rfl := hst rfl
    exact ⟨_, .hold _ _ rfl rfl, hf.2.1.kill (.inr rfl), hf.2.2⟩
  | giveExited g r =>
    obtain rfl := hst rfl
    obtain ⟨hf, -⟩ := hf
    exact ⟨_, .hold _ _ rfl rfl, hf.handle, hf.pending, hf.gate, hf.queue, hf.alive⟩
  | clearPending g r =>
    obtain rfl := hst rfl
    exact ⟨_, .dispatched g, hf.handle, rfl, hf.gate, hf.queue, hf.alive⟩

/-! ## The tail of a generation -/

theorem Stage.Fits.tail_of_taskExited {r : Registers} (hf : st.Fits r) (he : r.taskExited = true)
    (hne : st ≠ .checked) : st.tail = true := by
  have hfalse : r.taskExited ≠ false := by rw [he]; nofun
  cases st with
  | quiet | signalled => rfl
  | checked => exact absurd rfl hne
  | exitedReset | gateReset | unsent | lost | delivering => exact absurd hf.2 hfalse
  | ready | made | live | looping | failed | gated => exact absurd hf.2.1 hfalse
  | claimed | sending | deleting => exact absurd hf.2.2 hfalse
  | failing => exact absurd hf.2.2.1 hfalse
  | queued | dispatching => rfl

theorem Stage.Fits.quiet_of_pending {r : Registers} (hf : st.Fits r) (hp : r.terminationDispatchPending = false)
    (ht : st.tail = true) : st = .quiet := by
  have hfalse : r.terminationDispatchPending ≠ true := by rw [hp]; nofun
  cases st with
  | quiet => rfl
  | queued | dispatching =>
    obtain ⟨_, -, h, -⟩ := hf
    exact absurd h.pending hfalse
  | deleting => exact absurd hf.2.1.pending hfalse
  | delivering => exact absurd hf.1.pending hfalse
  | signalled => exact absurd hf.pending hfalse
  | _ => cases ht

theorem Passes.tail {l l' : Option Stage} {r r' : Registers} (h : Passes l st l' st') (hm : Move l r l' r')
    (ht : st.tail = true) (hne : st' ≠ .checked) : st'.tail = true := by
  cases h with
  | keep => exact ht
  | hold => cases hm <;> first | rfl | cases ht | exact ht
  | check => exact absurd rfl hne
  | receive | dispatched | send | unsent | createFailed => rfl
  | giveGate | enter | lost => cases ht

end ESPressio.Lifecycle
