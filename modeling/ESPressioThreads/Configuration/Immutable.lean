import ESPressioThreads.Lib.Token
import ESPressioThreads.Configuration.Machine
/-!
# A task keeps its settings

The configuration mutex is a token. Its holder stores a setting, or a handle,
only after it has seen that there is no task; elsewhere the handle is only
cleared. So the settings stay those of the task from the reads before `Create`
until its handle is gone, and the handle is still free when a new task is
published.
-/

namespace ESPressio.Configuration

open Transition ESPressio.Lifecycle ESPressio.Thread

/-- What the holder of the configuration mutex knows. -/
inductive Holding
  | free
  | held
  | empty
  | ready
  | made (g : Gen)
  deriving DecidableEq, Repr

def Holding.rest : Holding → Bool
  | .free => true
  | .held | .empty | .ready | .made _ => false

def InitializePc.holding : InitializePc → Option Holding
  | .recheckHandle | .unlockConfiguration _ => some .held
  | .resetExited | .resetGate | .resetFinalization => some .empty
  | .create => some .ready
  | .publish g => some (.made g)
  | _ => none

def Pc.holding (pc : Pc) : Option Holding := pc.initializePc.bind InitializePc.holding

def SetterPc.holding : SetterPc → Option Holding
  | .idle | .lock _ => none
  | .loadHandle _ | .unlock => some .held
  | .store _ => some .empty

def holdingAfter (f : Option Frame) : Option Holding := f.bind fun f => Pc.holding f.pc

/-- What each call of the lifecycle and each setter knows. -/
def State.holdings (c : State) : (TaskId × Nat) ⊕ Nat → Option Holding :=
  Sum.elim (fun a => holdingAfter (c.world.call a)) fun i => (c.setters i).holding

/-! ## Steps of the lifecycle -/

variable {w w' : World} {s s' : Shared} {p : TaskId} {ok : Bool}

/-- The mutex is left alone, and so is the handle unless it is cleared. -/
structure Clears (s s' : Shared) : Prop where
  locked : s'.configurationLocked = s.configurationLocked
  handle : s'.taskHandle = s.taskHandle ∨ s'.taskHandle = none

theorem Clears.refl (s : Shared) : Clears s s := ⟨rfl, .inl rfl⟩

/-- A step of a call with the configuration mutex, or without it. -/
inductive Uses (ok : Bool) : Option Holding → Shared → Option Holding → Shared → Prop
  | keep (x : Option Holding) (s s' : Shared) : x ≠ some .ready → Clears s s' → Uses ok x s x s'
  | lock (s : Shared) : s.configurationLocked = false →
      Uses ok none s (some .held) { s with configurationLocked := true }
  | unlock (s : Shared) : Uses ok (some .held) s none { s with configurationLocked := false }
  | check (s : Shared) : s.taskHandle = none → Uses ok (some .held) s (some .empty) s
  | prepared (s s' : Shared) : Clears s s' → Uses ok (some .empty) s (some .ready) s'
  | create (s : Shared) : ok = true →
      Uses ok (some .ready) s (some (.made s.created)) { s with created := s.created + 1 }
  | createFailed (s : Shared) : ok = false → Uses ok (some .ready) s none { s with configurationLocked := false }
  | publish (g : Gen) (s : Shared) : s.taskHandle = none →
      Uses ok (some (.made g)) s (some .held) { s with taskHandle := some g }
  | lost (g : Gen) (s s' : Shared) : s.taskHandle ≠ none → Uses ok (some (.made g)) s none s'

def Next.holding {π : Type} (holding : π → Option Holding) : Next π → Option Holding
  | .goto pc => holding pc
  | .ret _ => none

theorem Next.holding_inside {π ρ : Type} (call : π → ρ) (holding : ρ → Option Holding) (n : Next π) :
    Next.holding holding (n.inside call .ret) = Next.holding (fun y => holding (call y)) n := by
  cases n with
  | goto y => rfl
  | ret threw => rfl

theorem execInitialize_uses {pc : InitializePc} {next : Next InitializePc}
    (h : execInitialize s p pc ok = some (s', next)) :
    Uses ok (InitializePc.holding pc) s (Next.holding InitializePc.holding next) s' := by
  cases pc <;> simp only [execInitialize] at h
  case lockConfiguration =>
    split at h <;> cases h
    exact .lock _ (Bool.eq_false_iff.2 ‹_›)
  case recheckHandle =>
    split at h <;> cases h
    · exact .check _ ‹_›
    · exact .unlock _
  case resetExited | resetGate => cases h; exact .keep _ _ _ (by rintro ⟨⟩) ⟨rfl, .inl rfl⟩
  case resetFinalization => cases h; exact .prepared _ _ ⟨rfl, .inl rfl⟩
  case create =>
    split at h <;> cases h
    · exact .create _ ‹_›
    · exact .createFailed _ (Bool.eq_false_iff.2 ‹_›)
  case publish g =>
    split at h <;> cases h
    · exact .publish g _ ‹_›
    · exact .lost g _ _ ‹_›
  case unlockConfiguration g => cases h; exact .unlock _
  case exchangeTask g status => cases h; exact .keep _ _ _ (by rintro ⟨⟩) ⟨rfl, .inr rfl⟩
  case deleteTask g status handle =>
    cases h
    cases handle <;> exact .keep _ _ _ (by rintro ⟨⟩) ⟨rfl, .inl rfl⟩
  case catchTerminate g pc =>
    cases h
    cases execTerminate s pc <;> exact .keep _ _ _ (by rintro ⟨⟩) (.refl _)
  all_goals first
    | (cases h; exact .keep _ _ _ (by rintro ⟨⟩) ⟨rfl, .inl rfl⟩)
    | (cases h; split <;> exact .keep _ _ _ (by rintro ⟨⟩) (.refl _))
    | (split at h <;> cases h <;> exact .keep _ _ _ (by rintro ⟨⟩) ⟨rfl, .inl rfl⟩)
    | cases h

theorem StartPc.tail_holding : Next.holding (fun pc => Pc.holding (.start pc)) (StartPc.tail s) = none := by
  unfold StartPc.tail
  split <;> rfl

theorem execStart_uses {pc : StartPc} {next : Next StartPc} (h : execStart s p pc ok = some (s', next)) :
    Uses ok (Pc.holding (.start pc)) s (Next.holding (fun pc => Pc.holding (.start pc)) next) s' := by
  unfold execStart at h
  split at h
  · cases h
    split
    case h_5 | h_6 | h_7 => rw [StartPc.tail_holding]; exact .keep _ _ _ nofun (.refl _)
    all_goals exact .keep _ _ _ nofun (.refl _)
  · cases h
    split
    · exact .keep _ _ _ nofun (.refl _)
    · rw [StartPc.tail_holding]; exact .keep _ _ _ nofun (.refl _)
  · obtain ⟨⟨s₁, n⟩, hs, he⟩ := Option.map_eq_some_iff.1 h
    cases he
    rw [Next.holding_inside]
    exact execInitialize_uses hs
  · cases h; exact .keep _ _ _ nofun (.refl _)
  all_goals cases h

/-! The other methods only clear the handle. -/

theorem Clears.exchangeClaim (a b : CleanupClaim) : Clears s (s.exchangeClaim a b) := by
  unfold Shared.exchangeClaim
  split <;> exact ⟨rfl, .inl rfl⟩

theorem Clears.kill (handle : Option Gen) : Clears s (s.kill handle) := by
  cases handle <;> exact ⟨rfl, .inl rfl⟩

theorem execShutdown_clears {pc : ShutdownPc} {next : Next ShutdownPc} (h : execShutdown s p pc = some (s', next)) :
    Clears s s' := by
  cases pc <;> simp only [execShutdown] at h
  case claimManual | releaseClaim => cases h; exact .exchangeClaim _ _
  all_goals first
    | (cases h; exact ⟨rfl, .inl rfl⟩)
    | (split at h <;> cases h; exact ⟨rfl, .inl rfl⟩)
    | cases h

theorem execWorker_clears {g : Gen} {pc : WorkerPc} {next : Next WorkerPc}
    (h : execWorker s g pc ok = some (s', next)) : Clears s s' := by
  cases pc <;> simp only [execWorker] at h
  all_goals first
    | (cases h; exact ⟨rfl, .inl rfl⟩)
    | (split at h <;> cases h <;> exact ⟨rfl, .inl rfl⟩)
    | cases h

theorem execDispatcher_clears {pc : DispatcherPc} {next : Next DispatcherPc}
    (h : execDispatcher s pc = some (s', next)) : Clears s s' := by
  cases pc <;> simp only [execDispatcher] at h
  case receive => split at h <;> cases h; exact ⟨rfl, .inl rfl⟩
  case exchangeTask => cases h; exact ⟨rfl, .inr rfl⟩
  case deleteTask => cases h; exact .kill _
  all_goals cases h; exact ⟨rfl, .inl rfl⟩

theorem execCleanUp_clears {pc : CleanUpPc} {next : Next CleanUpPc} (h : execCleanUp s p pc ok = some (s', next)) :
    Clears s s' := by
  cases pc <;> simp only [execCleanUp] at h
  case exchangeClaim => split at h <;> cases h <;> exact ⟨rfl, .inl rfl⟩
  case releaseClaim => cases h; exact .exchangeClaim _ _
  case exchangeTask => cases h; exact ⟨rfl, .inr rfl⟩
  case deleteTask => cases h; exact .kill _
  all_goals first
    | (cases h; exact ⟨rfl, .inl rfl⟩)
    | cases h

theorem exec_uses {pc : Pc} {next : Next Pc} (h : exec s p pc ok = some (s', next)) :
    Uses ok (Pc.holding pc) s (Next.holding Pc.holding next) s' := by
  -- What a method without the mutex goes on with has no mutex either.
  have hkeep : ∀ {π : Type} (n : Next π) (call : π → Pc), (∀ x, Pc.holding (call x) = none) → Clears s s' →
      Uses ok none s (Next.holding Pc.holding (n.inside call .ret)) s' := by
    intro π n call hn hc
    cases n with
    | goto y =>
      simp only [Next.inside, Next.holding, hn]
      exact .keep none _ _ (by rintro ⟨⟩) hc
    | ret threw => exact .keep none _ _ (by rintro ⟨⟩) hc
  unfold exec at h
  split at h
  · cases h
  · cases h
  · cases h; exact .keep _ _ _ (by rintro ⟨⟩) ⟨rfl, .inl rfl⟩
  · cases h
    refine .keep _ _ _ (by rintro ⟨⟩) ?_
    split <;> exact .exchangeClaim _ _
  · cases h; exact .keep _ _ _ (by rintro ⟨⟩) ⟨rfl, .inl rfl⟩
  · cases h; exact hkeep _ _ (fun _ => rfl) (.refl _)
  all_goals
    obtain ⟨⟨s₁, n⟩, hs, he⟩ := Option.map_eq_some_iff.1 h
    cases he
  · rw [Next.holding_inside]; exact execInitialize_uses hs
  · rw [Next.holding_inside]; exact execStart_uses hs
  · exact hkeep _ _ (fun _ => rfl) (execShutdown_clears hs)
  · exact hkeep _ _ (fun _ => rfl) (execWorker_clears hs)
  · exact hkeep _ _ (fun _ => rfl) (execDispatcher_clears hs)
  · exact hkeep _ _ (fun _ => rfl) (execCleanUp_clears hs)

/-! ## Calls that wait for a transition -/

theorem InitializePc.holding_of_transition {pc : InitializePc} (h : pc.transition ≠ none) :
    InitializePc.holding pc = none := by
  cases pc <;> first | rfl | exact absurd rfl h

/-- No transition is made under the configuration mutex. -/
theorem Pc.holding_of_transition {pc : Pc} (h : pc.transition ≠ none) : Pc.holding pc = none := by
  cases pc with
  | initializeThread pc => exact InitializePc.holding_of_transition h
  | start pc =>
    cases pc with
    | initializeThread pc => exact InitializePc.holding_of_transition h
    | _ => rfl
  | _ => rfl

theorem resumeInitialize_holding (pc : InitializePc) {stored threw : Bool} :
    Next.holding InitializePc.holding (pc.resume s stored threw) = none := by
  cases pc
  case catchTerminate g pc =>
    simp only [InitializePc.resume]
    cases pc.resume s threw <;> rfl
  case reset =>
    simp only [InitializePc.resume]
    split
    · rfl
    · split <;> rfl
  case setInitialized | setRunning | stopTerminated =>
    simp only [InitializePc.resume]
    split <;> rfl
  all_goals rfl

theorem resume_holding (pc : Pc) {stored threw : Bool} :
    Next.holding Pc.holding (pc.resume s stored threw) = none := by
  have hnone : ∀ {π : Type} (n : Next π) (call : π → Pc), (∀ x, Pc.holding (call x) = none) →
      Next.holding Pc.holding (n.inside call .ret) = none := by
    intro π n call hn
    cases n with
    | goto y => exact hn y
    | ret threw => rfl
  cases pc with
  | initializeThread pc =>
    simp only [Pc.resume, Next.holding_inside]
    exact resumeInitialize_holding pc
  | start pc =>
    simp only [Pc.resume, Next.holding_inside]
    cases pc with
    | initializeThread pc =>
      simp only [StartPc.resume, Next.holding_inside]
      exact resumeInitialize_holding pc
    | readState | setRunning | tryInitialized | tryPaused | signalScheduler =>
      simp only [StartPc.resume]
      split
      · rfl
      · exact StartPc.tail_holding
  | terminate pc => exact hnone _ _ fun _ => rfl
  | shutdown pc => exact hnone _ _ fun _ => rfl
  | worker g pc => exact hnone _ _ fun _ => rfl
  | cleanUp pc => cases pc <;> rfl
  | idle | setFreeOnTerminate | setStartOnInitialize | pause | dispatcher => rfl

theorem holdingAfter_next (f : Frame) (next : Next Pc) : holdingAfter (f.next next) = Next.holding Pc.holding next := by
  cases next <;> rfl

/-- Every step of a call uses the mutex as it should. -/
theorem uses_of_frameStep {a : TaskId × Nat} {f : Frame} {f' : Option Frame} (h : FrameStep s p f ok s' f')
    (hok : f.Ok a) : Uses ok (Pc.holding f.pc) s (holdingAfter f') s' := by
  have hclears : ∀ {state owner depth}, Clears s
      { s with threadState := state, transitionOwner := owner, transitionDepth := depth } := ⟨rfl, .inl rfl⟩
  have htransition : ∀ tr, f.transition = some tr → f.pc.transition ≠ none := fun tr htr => by
    rw [hok.transition tr htr]
    exact Option.some_ne_none _
  cases h with
  | inTransition tr tr' s' htr hst =>
    obtain ⟨_, _, _, rfl⟩ := stepTransition_shared hst
    refine .keep _ _ _ ?_ hclears
    rw [Pc.holding_of_transition (htransition tr htr)]
    nofun
  | transitionDone tr s' stored threw htr hst =>
    obtain ⟨_, _, _, rfl⟩ := stepTransition_shared hst
    rw [holdingAfter_next, resume_holding, Pc.holding_of_transition (htransition tr htr)]
    exact .keep _ _ _ nofun hclears
  | transitionStart expected newState htr hpc =>
    refine .keep _ _ _ ?_ (.refl _)
    rw [Pc.holding_of_transition (by rw [hpc]; exact Option.some_ne_none _)]
    nofun
  | exec s' next htr hpc hex =>
    rw [holdingAfter_next]
    exact exec_uses hex

/-! ## The invariant -/

def Reading.Agrees (settings : TaskConfiguration) : Reading → Prop
  | .getStackSize => True
  | .getPriority stackSize => stackSize = settings.stackSize
  | .getCoreID stackSize priority => stackSize = settings.stackSize ∧ priority = settings.priority
  | .done configuration => configuration = settings

def Holding.Fits (c : State) : Holding → Prop
  | .free | .held => True
  | .empty | .ready => c.world.shared.taskHandle = none
  | .made g => c.world.shared.taskHandle = none ∧ c.passed g = some c.settings

/-- The configuration mutex is at `x`, and what was read or passed is still set. -/
structure SettingsInv (c : State) (x : Holding) : Prop where
  calls : CallsOk c.world
  token : Token.At Holding.rest c.holdings x
  locked : c.world.shared.configurationLocked = !x.rest
  fits : x.Fits c
  passed : ∀ g, c.world.shared.taskHandle = some g → c.passed g = some c.settings
  reading : ∀ a, (c.reading a).Agrees c.settings
  readers : ∀ a, c.reading a ≠ .getStackSize → c.holdings (.inl a) = some .ready

variable {c c' : State} {x : Holding} {j : (TaskId × Nat) ⊕ Nat} {l l' : Option Holding}

theorem SettingsInv.eq_of_holds {y : Holding} (h : SettingsInv c x) (hj : c.holdings j = some y) : x = y :=
  (h.token.eq_of_holds hj).symm

/-- Only the call at `Create` has read anything. -/
theorem SettingsInv.no_readers (h : SettingsInv c x) (hx : x ≠ .ready) (a : TaskId × Nat) :
    c.reading a = .getStackSize := by
  by_contra hne
  exact hx (h.eq_of_holds (h.readers a hne))

/-- A step that leaves the settings alone, not one of a call at `Create`. -/
theorem SettingsInv.uses {k : Bool} (h : SettingsInv c x) (hu : Uses k l c.world.shared l' c'.world.shared)
    (hl : c.holdings j = l) (hready : l ≠ some .ready) (hcalls : CallsOk c'.world)
    (hh : c'.holdings = Function.update c.holdings j l') (hset : c'.settings = c.settings)
    (hread : c'.reading = c.reading) (hpassed : c'.passed = c.passed) : ∃ x', SettingsInv c' x' := by
  have hreading : ∀ a, (c'.reading a).Agrees c'.settings := by
    rw [hread, hset]
    exact h.reading
  have hreaders : ∀ a, c'.reading a ≠ .getStackSize → c'.holdings (.inl a) = some .ready := by
    intro a ha
    rw [hread] at ha
    have hra := h.readers a ha
    rw [hh, Function.update_apply, if_neg]
    · exact hra
    · rintro rfl
      exact hready (hl.symm.trans hra)
  have hkept : ∀ g, c.world.shared.taskHandle = some g → c'.passed g = some c'.settings := by
    rw [hpassed, hset]
    exact h.passed
  generalize hs : c.world.shared = s at hu hkept
  generalize hs' : c'.world.shared = s' at hu
  cases hu with
  | keep y _ _ _ hc =>
    have hnone : s.taskHandle = none → s'.taskHandle = none := fun hn => hc.handle.elim (·.trans hn) id
    refine ⟨x, hcalls, ?_, ?_, ?_, fun g hg => ?_, hreading, hreaders⟩
    · rw [hh, ← hl, Function.update_eq_self]
      exact h.token
    · rw [hs', hc.locked, ← hs, h.locked]
    · have hf := h.fits
      cases x with
      | free | held => trivial
      | empty | ready => rw [Holding.Fits, hs']; exact hnone (hs ▸ hf)
      | made g => rw [Holding.Fits, hs', hpassed, hset]; exact ⟨hnone (hs ▸ hf.1), hf.2⟩
    · rw [hs'] at hg
      rcases hc.handle with he | he
      · exact hkept g (he ▸ hg)
      · rw [he] at hg; cases hg
  | lock _ hf =>
    have hx : x.rest = true := by simpa [hs, hf] using h.locked
    refine ⟨.held, hcalls, ?_, by rw [hs']; rfl, trivial, by rw [hs']; exact hkept, hreading, hreaders⟩
    rw [hh]
    exact h.token.take hx rfl
  | unlock =>
    obtain rfl := h.eq_of_holds hl
    refine ⟨.free, hcalls, ?_, by rw [hs']; rfl, trivial, by rw [hs']; exact hkept, hreading, hreaders⟩
    rw [hh]
    exact h.token.release hl rfl
  | check _ hn =>
    obtain rfl := h.eq_of_holds hl
    refine ⟨.empty, hcalls, ?_, ?_, by rw [Holding.Fits, hs']; exact hn, by rw [hs']; exact hkept, hreading, hreaders⟩
    · rw [hh]
      exact h.token.move hl rfl
    · rw [hs', ← hs, h.locked]
      rfl
  | prepared _ _ hc =>
    obtain rfl := h.eq_of_holds hl
    have hn : s'.taskHandle = none := hc.handle.elim (·.trans (hs ▸ h.fits)) id
    refine ⟨.ready, hcalls, ?_, ?_, by rw [Holding.Fits, hs']; exact hn, fun g hg => ?_, hreading, hreaders⟩
    · rw [hh]
      exact h.token.move hl rfl
    · rw [hs', hc.locked, ← hs, h.locked]
      rfl
    · rw [hs', hn] at hg; cases hg
  | create | createFailed => exact absurd rfl hready
  | publish g _ hn =>
    obtain rfl := h.eq_of_holds hl
    refine ⟨.held, hcalls, ?_, ?_, trivial, fun g' hg => ?_, hreading, hreaders⟩
    · rw [hh]
      exact h.token.move hl rfl
    · rw [hs']
      exact (congrArg Shared.configurationLocked hs).symm.trans h.locked
    · rw [hs'] at hg
      cases hg
      rw [hpassed, hset]
      exact h.fits.2
  | lost g _ _ hn =>
    obtain rfl := h.eq_of_holds hl
    exact absurd (hs ▸ h.fits.1) hn

/-- The step in which a call creates a task with what it read, or fails to. -/
theorem SettingsInv.created {a : TaskId × Nat} {configuration : TaskConfiguration} (h : SettingsInv c x)
    (hu : Uses ok (some .ready) c.world.shared l' c'.world.shared) (hl : c.holdings (.inl a) = some .ready)
    (hdone : c.reading a = .done configuration) (hcalls : CallsOk c'.world)
    (hh : c'.holdings = Function.update c.holdings (.inl a) l') (hset : c'.settings = c.settings)
    (hread : c'.reading = Function.update c.reading a .getStackSize)
    (hpassed : c'.passed =
      if ok then Function.update c.passed c.world.shared.created (some configuration) else c.passed) :
    ∃ x', SettingsInv c' x' := by
  obtain rfl := h.eq_of_holds hl
  have hagree : configuration = c.settings := by
    have := h.reading a
    rwa [hdone] at this
  have hunread : ∀ b, c'.reading b = .getStackSize := by
    intro b
    rw [hread, Function.update_apply]
    split
    · rfl
    · rename_i hb
      by_contra hne
      have hothers := h.token.others hl (b := .inl b) (fun he => hb (Sum.inl.inj he))
      rw [h.readers b hne] at hothers
      cases hothers
  have hreading : ∀ b, (c'.reading b).Agrees c'.settings := fun b => by rw [hunread b]; trivial
  have hreaders : ∀ b, c'.reading b ≠ .getStackSize → c'.holdings (.inl b) = some .ready :=
    fun b hb => absurd (hunread b) hb
  have hn : c.world.shared.taskHandle = none := h.fits
  generalize hs : c.world.shared = s at hu hpassed
  generalize hs' : c'.world.shared = s' at hu
  cases hu with
  | keep _ _ _ hne => exact absurd rfl hne
  | create _ hok =>
    have hhandle : c'.world.shared.taskHandle = none := by rw [hs', ← hn, hs]
    refine ⟨.made s.created, hcalls, ?_, ?_, ⟨hhandle, ?_⟩, fun g hg => ?_, hreading, hreaders⟩
    · rw [hh]
      exact h.token.move hl rfl
    · rw [hs']
      exact (congrArg Shared.configurationLocked hs).symm.trans h.locked
    · rw [hpassed, if_pos hok, Function.update_self, hset, hagree]
    · rw [hhandle] at hg; cases hg
  | createFailed =>
    have hhandle : c'.world.shared.taskHandle = none := by rw [hs', ← hn, hs]
    refine ⟨.free, hcalls, ?_, by rw [hs']; rfl, trivial, fun g hg => ?_, hreading, hreaders⟩
    · rw [hh]
      exact h.token.release hl rfl
    · rw [hhandle] at hg; cases hg

/-- A setter stores its value. -/
theorem SettingsInv.stored {i : Nat} (h : SettingsInv c x) (hl : c.holdings (.inr i) = some .empty)
    (hw : c'.world = c.world) (hh : c'.holdings = Function.update c.holdings (.inr i) (some .held))
    (hread : c'.reading = c.reading) : SettingsInv c' .held := by
  obtain rfl := h.eq_of_holds hl
  have hunread : ∀ b, c'.reading b = .getStackSize := fun b => by rw [hread, h.no_readers nofun]
  refine ⟨by rw [hw]; exact h.calls, ?_, by rw [hw, h.locked]; rfl, trivial, fun g hg => ?_,
    fun b => by rw [hunread b]; trivial, fun b hb => absurd (hunread b) hb⟩
  · rw [hh]
    exact h.token.move hl rfl
  · have hn : c.world.shared.taskHandle = none := h.fits
    rw [hw, hn] at hg
    cases hg

/-! ## Steps -/

theorem State.holdings_call {a : TaskId × Nat} {f' : Option Frame}
    (hcall : c'.world.call = Function.update c.world.call a f') (hs : c'.setters = c.setters)
    (hf : holdingAfter f' = l') : c'.holdings = Function.update c.holdings (.inl a) l' := by
  subst hf
  funext b
  cases b with
  | inl b =>
    by_cases hb : b = a
    · subst hb
      simp [State.holdings, hcall]
    · simp [State.holdings, hcall, hb]
  | inr i => simp [State.holdings, hs]

theorem State.holdings_setter {i : Nat} {pc : SetterPc} (hcall : c'.world.call = c.world.call)
    (hs : c'.setters = Function.update c.setters i pc) (hpc : pc.holding = l') :
    c'.holdings = Function.update c.holdings (.inr i) l' := by
  subst hpc
  funext b
  cases b with
  | inl a => simp [State.holdings, hcall]
  | inr k =>
    by_cases hk : k = i
    · subst hk
      simp [State.holdings, hs]
    · simp [State.holdings, hs, hk]

theorem InitializePc.holding_ready {pc : InitializePc} (h : InitializePc.holding pc = some .ready) : pc = .create := by
  cases pc <;> first | rfl | cases h

theorem Pc.holding_ready {pc : Pc} : Pc.holding pc = some .ready ↔ pc.initializePc = some .create := by
  constructor
  · intro h
    obtain ⟨t, ht, hr⟩ := Option.bind_eq_some_iff.1 h
    rw [ht, InitializePc.holding_ready hr]
  · intro h
    simp [Pc.holding, h, InitializePc.holding]

/-- The last call of the task is at `Create` when it is about to create a task. -/
theorem creating_eq {n : Nat} {f : Frame} (hd : w.depth p = n + 1) (hf : w.call (p, n) = some f) :
    creating w p = if Pc.holding f.pc = some .ready then some (p, n) else none := by
  obtain ⟨-, rfl⟩ := World.call_eq_some.1 hf
  simp only [creating, hd, Pc.holding_ready]

theorem creating_some {a : TaskId × Nat} (h : creating w p = some a) :
    ∃ n f, a = (p, n) ∧ w.depth p = n + 1 ∧ w.call (p, n) = some f ∧ Pc.holding f.pc = some .ready := by
  unfold creating at h
  split at h
  · cases h
  · rename_i n hd
    split at h <;> cases h
    exact ⟨n, _, rfl, hd, World.call_eq_some.2 ⟨by simp [hd], rfl⟩, Pc.holding_ready.2 ‹_›⟩

theorem State.holdings_inl {a : TaskId × Nat} {f : Frame} (hf : c.world.call a = some f) :
    c.holdings (.inl a) = Pc.holding f.pc := by
  simp [State.holdings, holdingAfter, hf]

theorem SettingsInv.lifecycle {a : Lifecycle.Action} (h : SettingsInv c x) (hs : stepLifecycle c a = some c') :
    ∃ x', SettingsInv c' x' := by
  cases a with
  | call q request =>
    obtain ⟨w', hw, rfl⟩ := Option.map_eq_some_iff.1 hs
    obtain ⟨hshared, -, b, -, hb, hcall⟩ := call_update hw
    have hentry : holdingAfter (some ⟨request.entry, none, c.world.shared.reclaimed⟩) = none := by
      cases request <;> rfl
    refine h.uses (j := .inl b) (k := true) (.keep none _ _ nofun ?_) ?_ nofun (h.calls.step hw) ?_ rfl rfl rfl
    · rw [hshared]
      exact .refl _
    · simp [State.holdings, hb, holdingAfter]
    · exact State.holdings_call hcall rfl hentry
  | step q ok =>
    simp only [stepLifecycle] at hs
    split at hs
    · rename_i hcreating
      obtain ⟨w', hw, rfl⟩ := Option.map_eq_some_iff.1 hs
      obtain ⟨-, n, f, f', hd, -, hf, hstep, hcall⟩ := step_last hw
      rw [creating_eq hd hf] at hcreating
      exact h.uses (uses_of_frameStep hstep (h.calls _ f hf)) (State.holdings_inl hf) (by simpa using hcreating)
        (h.calls.step hw) (State.holdings_call hcall rfl rfl) rfl rfl rfl
    · rename_i call hcreating
      split at hs
      · rename_i configuration hdone
        obtain ⟨w', hw, rfl⟩ := Option.map_eq_some_iff.1 hs
        obtain ⟨-, n, f, f', hd, -, hf, hstep, hcall⟩ := step_last hw
        obtain ⟨m, g, rfl, hd', hg, hready⟩ := creating_some hcreating
        obtain rfl : m = n := by omega
        obtain rfl : f = g := Option.some.inj (hf.symm.trans hg)
        refine h.created ?_ ((State.holdings_inl hf).trans hready) hdone
          (h.calls.step hw) (State.holdings_call hcall rfl rfl) rfl rfl rfl
        rw [← hready]
        exact uses_of_frameStep hstep (h.calls _ f hf)
      · cases hs

theorem Reading.Agrees.next {settings : TaskConfiguration} {r r' : Reading} (h : r.Agrees settings)
    (hr : r.next settings = some r') : r'.Agrees settings := by
  cases r with
  | getStackSize => cases hr; rfl
  | getPriority stackSize => cases hr; exact ⟨h, rfl⟩
  | getCoreID stackSize priority =>
    cases hr
    obtain ⟨rfl, rfl⟩ := h
    rfl
  | done configuration => cases hr

theorem SettingsInv.read (h : SettingsInv c x) (hs : step c (.read p) = some c') : SettingsInv c' x := by
  obtain ⟨call, hcreating, hs⟩ := Option.bind_eq_some_iff.1 hs
  obtain ⟨r, hr, rfl⟩ := Option.map_eq_some_iff.1 hs
  obtain ⟨n, f, rfl, -, hf, hready⟩ := creating_some hcreating
  refine ⟨h.calls, h.token, h.locked, h.fits, h.passed, fun b => ?_, fun b hb => ?_⟩
  · simp only [Function.update_apply]
    split
    · exact (h.reading _).next hr
    · exact h.reading b
  · simp only [Function.update_apply] at hb
    split at hb
    · rename_i he
      rw [he]
      exact (State.holdings_inl hf).trans hready
    · exact h.readers b hb

theorem SettingsInv.setter {i : Nat} (h : SettingsInv c x) (hs : stepSetter c i = some c') :
    ∃ x', SettingsInv c' x' := by
  have hl : c.holdings (.inr i) = (c.setters i).holding := rfl
  unfold stepSetter at hs
  split at hs <;> rename_i hpc <;> rw [hpc] at hl
  · cases hs
  · split at hs <;> cases hs
    refine h.uses (k := true) (.lock _ (Bool.eq_false_iff.2 ‹_›)) hl nofun ?_ ?_ rfl rfl rfl
    · exact h.calls
    · exact State.holdings_setter rfl rfl rfl
  · cases hs
    split
    · rename_i hg
      refine h.uses (k := true) (.check _ hg.1) hl nofun h.calls ?_ rfl rfl rfl
      exact State.holdings_setter rfl rfl rfl
    · refine h.uses (k := true) (.keep (some .held) _ _ nofun (.refl _)) hl nofun h.calls ?_ rfl rfl rfl
      exact State.holdings_setter rfl rfl rfl
  · cases hs
    exact ⟨.held, h.stored hl rfl (State.holdings_setter rfl rfl rfl) rfl⟩
  · cases hs
    refine h.uses (k := true) (.unlock _) hl nofun ?_ ?_ rfl rfl rfl
    · exact h.calls
    · exact State.holdings_setter rfl rfl rfl

theorem SettingsInv.step {a : Action} (h : SettingsInv c x) (hs : step c a = some c') : ∃ x', SettingsInv c' x' := by
  cases a with
  | lifecycle a => exact h.lifecycle hs
  | read q => exact ⟨x, h.read hs⟩
  | set i setting =>
    simp only [Configuration.step] at hs
    split at hs <;> cases hs
    rename_i hidle
    refine h.uses (k := true) (.keep none _ _ nofun (.refl _)) (j := .inr i) ?_ nofun h.calls ?_ rfl rfl rfl
    · exact congrArg SetterPc.holding hidle
    · exact State.holdings_setter rfl rfl rfl
  | setter i => exact h.setter hs

theorem settingsInv_reachable {managed : Bool} (h : (system managed).Reachable c) : ∃ x, SettingsInv c x := by
  refine h.invariant (I := fun c => ∃ x, SettingsInv c x) (fun c hc => ?_) fun c a c' hi _ hs => ?_
  · obtain ⟨w, stackSize, hw, rfl⟩ := hc
    have hcalls := callsOk_reachable (.init hw : (Lifecycle.system managed).Reachable w)
    obtain ⟨free, start, precision, rfl⟩ := hw
    refine ⟨.free, hcalls, .resting rfl fun j => ?_, rfl, trivial, nofun, fun _ => trivial, fun a ha => absurd rfl ha⟩
    cases j with
    | inr i => rfl
    | inl a =>
      simp only [State.holdings, Sum.elim_inl, State.start]
      cases hf : (World.start _).call a with
      | none => rfl
      | some f => rcases start_call hf with ⟨g, -, rfl⟩ | ⟨-, rfl⟩ <;> rfl
  · obtain ⟨x, hx⟩ := hi
    exact hx.step hs

/-! ## Immutability -/

theorem resume_status {t t' : InitializePc} {stored threw : Bool} (h : t.resume s stored threw = .goto t') :
    t'.status ≠ some .concurrentInitializationLost := by
  cases InitializePc.resume_goto h <;> nofun

theorem execInitialize_status {t t' : InitializePc} (h : execInitialize s p t ok = some (s', .goto t'))
    (ht' : t'.status = some .concurrentInitializationLost) :
    t.status = some .concurrentInitializationLost ∨ ∃ g, t = .publish g ∧ s.taskHandle ≠ none := by
  cases execInitialize_goto h with
  | lost g hh => exact .inr ⟨g, rfl, hh⟩
  | _ =>
    first
    | exact .inl ht'
    | cases ht'

variable {tr tr' : Option StateTransition} {t t' : InitializePc}

/-- Only a call that finds a handle where it publishes its own has lost. -/
theorem lost_of_initializeTo (h : InitializeTo s p ok tr t s' tr' t')
    (ht' : t'.status = some .concurrentInitializationLost) :
    t.status = some .concurrentInitializationLost ∨ ∃ g, t = .publish g ∧ s.taskHandle ≠ none := by
  cases h with
  | inTransition | transitionStart => exact .inl ht'
  | transitionDone _ _ tr s' stored threw _ hr => exact absurd ht' (resume_status hr)
  | exec _ _ s' hex => exact execInitialize_status hex ht'

/-! The handle is free where a task is published, so no call of `Initialize` has lost. -/

def NeverLost (w : World) : Prop :=
  ∀ a f, w.call a = some f → ∀ t, f.pc.initializePc = some t → t.status ≠ some .concurrentInitializationLost

theorem SettingsInv.handle_of_publish {a : TaskId × Nat} {f : Frame} {g : Gen} (h : SettingsInv c x)
    (hf : c.world.call a = some f) (hpc : f.pc.initializePc = some (.publish g)) :
    c.world.shared.taskHandle = none := by
  have hmade : c.holdings (.inl a) = some (.made g) := by
    rw [State.holdings_inl hf, Pc.holding, hpc]
    rfl
  obtain rfl := h.eq_of_holds hmade
  exact h.fits.1

theorem NeverLost.lifecycle {a : Lifecycle.Action} (h : NeverLost c.world) (hx : SettingsInv c x)
    (hs : Lifecycle.step c.world a = some w') : NeverLost w' := by
  cases a with
  | call q request =>
    obtain ⟨-, -, b, -, -, hcall⟩ := call_update hs
    rw [NeverLost, hcall]
    refine forall_call_update (fun f hf t ht => ?_) fun a f _ ha => h a f ha
    cases hf
    cases request <;> cases ht
    nofun
  | step q ok =>
    obtain ⟨-, b, f, f', -, -, hf, hstep, hcall⟩ := step_update hs
    rw [NeverLost, hcall]
    refine forall_call_update (fun f₁ hf₁ t ht hlost => ?_) fun a f _ ha => h a f ha
    rw [hf₁] at hstep
    rcases hstep.initializePc ht with rfl | ⟨t₀, ht₀, hto⟩
    · cases hlost
    · rcases lost_of_initializeTo hto hlost with hlost₀ | ⟨g, rfl, hne⟩
      · exact h b f hf t₀ ht₀ hlost₀
      · exact hne (hx.handle_of_publish hf ht₀)

/-- A setter, or a read, is no step of the lifecycle. -/
theorem step_world {a : Action} (hs : step c a = some c') :
    c'.world.call = c.world.call ∨ ∃ b, Lifecycle.step c.world b = some c'.world := by
  cases a with
  | lifecycle b =>
    right
    refine ⟨b, ?_⟩
    cases b with
    | call q request =>
      obtain ⟨w', hw, rfl⟩ := Option.map_eq_some_iff.1 hs
      exact hw
    | step q ok =>
      simp only [step, stepLifecycle] at hs
      split at hs
      · obtain ⟨w', hw, rfl⟩ := Option.map_eq_some_iff.1 hs
        exact hw
      · split at hs
        · obtain ⟨w', hw, rfl⟩ := Option.map_eq_some_iff.1 hs
          exact hw
        · cases hs
  | read q =>
    obtain ⟨call, -, hs⟩ := Option.bind_eq_some_iff.1 hs
    obtain ⟨r, -, rfl⟩ := Option.map_eq_some_iff.1 hs
    exact .inl rfl
  | set i setting =>
    simp only [step] at hs
    split at hs <;> cases hs
    exact .inl rfl
  | setter i =>
    left
    simp only [step, stepSetter] at hs
    split at hs
    · cases hs
    · split at hs <;> cases hs
      rfl
    all_goals cases hs; rfl

theorem neverLost_reachable {managed : Bool} (h : (system managed).Reachable c) : NeverLost c.world := by
  refine h.invariant_with (I := fun c => NeverLost c.world) (J := fun c => ∃ x, SettingsInv c x)
    (fun _ hr => settingsInv_reachable hr) (fun c hc => ?_) fun c a c' hx _ hi _ hs => ?_
  · obtain ⟨w, stackSize, ⟨free, start, precision, rfl⟩, rfl⟩ := hc
    intro a f hf t ht
    rcases start_call hf with ⟨g, -, rfl⟩ | ⟨-, rfl⟩ <;> cases ht
  · obtain ⟨x, hx⟩ := hx
    rcases step_world hs with hcall | ⟨b, hb⟩
    · intro a f hf
      exact hi a f (hcall ▸ hf)
    · exact hi.lifecycle hx hb

/-! ## Immutability -/

/-- While there is a task its settings are what it was created with, and the
exchange that publishes a task succeeds. -/
structure Immutable (c : State) : Prop where
  settings : ∀ g, c.world.shared.taskHandle = some g → c.passed g = some c.settings
  publishes : ∀ a f g, c.world.call a = some f → f.pc.initializePc = some (.publish g) → ∀ q ok,
    execInitialize c.world.shared q (.publish g) ok =
      some ({ c.world.shared with taskHandle := some g }, .goto (.unlockConfiguration g))
  neverLost : NeverLost c.world

/-- The settings are immutable while a task exists. -/
theorem configuration_immutable (managed : Bool) (c : State) (h : (system managed).Reachable c) : Immutable c := by
  obtain ⟨x, hx⟩ := settingsInv_reachable h
  refine ⟨hx.passed, fun a f g hf hpc q ok => ?_, neverLost_reachable h⟩
  rw [execInitialize, if_pos (hx.handle_of_publish hf hpc)]

/-- The priority is set, then application task 0 initializes the thread, and
setting it again comes too late. -/
def prioritySet : List Action :=
  [.set 0 (.priority 7), .setter 0, .setter 0, .setter 0, .setter 0, .lifecycle (.call (.app 0) .initializeThread)] ++
    (steps (.app 0) 10).map .lifecycle ++ List.replicate 3 (.read (.app 0)) ++ (steps (.app 0) 3).map .lifecycle ++
    [.set 0 (.priority 9), .setter 0, .setter 0, .setter 0]

theorem priority_immutable : ∃ c, (system false).Reachable c ∧ c.world.shared.taskHandle = some 0 ∧
    c.passed 0 = some ⟨4096, 7, 0⟩ ∧ c.settings.priority = 7 ∧ Immutable c := by
  have hrun : ((system false).replay (State.start (newThread true false) 4096) prioritySet).map
      (fun c => (c.world.shared.taskHandle, c.passed 0, c.settings.priority)) =
      some (some 0, some ⟨4096, 7, 0⟩, 7) := by
    decide +kernel
  obtain ⟨c, hs, hp⟩ := Option.map_eq_some_iff.1 hrun
  simp only [Prod.mk.injEq] at hp
  have hinit : (system false).init (State.start (newThread true false) 4096) :=
    ⟨_, 4096, newThread_init true false, rfl⟩
  have hr := Transition.System.reachable_of_replay hinit hs
  exact ⟨c, hr, hp.1, hp.2.1, hp.2.2, configuration_immutable false c hr⟩

end ESPressio.Configuration
