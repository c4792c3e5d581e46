import ESPressioThreads.Lifecycle.ExitState
/-!
# The exit protocol

A released worker leaves one log, in the order of `exitProtocol`, and the
thread stays `Terminated` from its last transition until the pending flag is
clear.
-/

namespace ESPressio.Lifecycle

open Transition ESPressio.Thread

variable {w w' : World} {s s' : Shared} {p : TaskId} {ok : Bool} {f : Frame} {g : Gen} {st st' : Stage}
  {a : TaskId × Nat} {f' : Option Frame} {log : List Event} {r r' : Registers} {l l' : Option Stage}

/-! ## Generations of stages -/

/-- The generation at a stage. -/
def Stage.gen : Stage → Option Gen
  | .made g | .live g | .failing g _ | .failed g | .gated g | .looping g | .claimed g _ | .sending g _ | .lost g
  | .queued g | .dispatching g | .deleting g _ | .delivering g | .signalled g => some g
  | .quiet | .checked | .exitedReset | .gateReset | .ready | .unsent _ => none

/-- A worker that has not taken its start gate. -/
def Stage.unreleased : Stage → Option Gen
  | .made g | .live g | .gated g => some g
  | _ => none

/-- A worker that `Initialize` gives up, up to its record. -/
def Stage.abandoned : Stage → Option Gen
  | .failing g _ | .failed g | .claimed g none | .sending g none => some g
  | _ => none

/-- The queue did not take the record. -/
def Stage.unrecorded : Stage → Bool
  | .unsent _ | .lost _ => true
  | _ => false

/-- A step of the protocol that is not logged. -/
structure Unlogged (r r' : Registers) (st st' : Stage) : Prop where
  created : r'.created = r.created ∨ (st' = .made r.created ∧ r'.created = r.created + 1)
  gen : ∀ g, st.gen = some g → st'.gen = some g
  gen_of : ∀ g, st'.gen = some g → st.gen = some g ∨ (st' = .made r.created ∧ r'.created = r.created + 1)
  unreleased : ∀ g, st'.unreleased = some g → st.unreleased = some g ∨ (g = r.created ∧ r'.created = r.created + 1)
  abandoned : ∀ g, st'.abandoned = some g → st.abandoned = some g ∨ st.unreleased = some g
  queued : ∀ g, st' = .queued g → st = .queued g ∧ r'.taskHandle = r.taskHandle
  dispatching : ∀ g, st' = .dispatching g → st = .dispatching g ∧ r'.taskHandle = r.taskHandle
  deleting : ∀ g task, st' = .deleting g task →
    st = .deleting g task ∨ (st = .dispatching g ∧ task = r.taskHandle)
  recorded : st'.unrecorded = false

theorem Passes.unlogged (hp : Passes l st l' st') (hm : Move l r l' r') (hs : ∀ g task, l ≠ some (.sending g task))
    (hd : ∀ g, l ≠ some (.signalled g)) (hn : l = none → l' = none ∨ l' = some .checked)
    (hst : st.unrecorded = false) : Unlogged r r' st st' := by
  have hrefl : ∀ x : Registers, x.created = r.created → x.taskHandle = r.taskHandle → Unlogged r x st st := by
    intro x hc hh
    exact ⟨.inl hc, fun _ h => h, fun _ => .inl, fun _ => .inl, fun _ => .inl, fun _ h => ⟨h, hh⟩, fun _ h => ⟨h, hh⟩,
      fun _ _ => .inl, hst⟩
  cases hp with
  | keep =>
    cases hm with
    | skip => exact hrefl r rfl rfl
    | waitExited => exact hrefl _ rfl rfl
  | hold _ _ hr hr' =>
    cases hm with
    | skip => exact hrefl r rfl rfl
    | sendFailed g task => exact absurd rfl (hs g task)
    | create =>
      refine ⟨.inr ⟨rfl, rfl⟩, nofun, fun _ _ => .inr ⟨rfl, rfl⟩, fun g hg => ?_, nofun, nofun, nofun, nofun, rfl⟩
      cases hg
      exact .inr ⟨rfl, rfl⟩
    | exchange g =>
      refine ⟨.inl rfl, fun _ h => h, fun _ => .inl, nofun, nofun, nofun, nofun, fun g' task hd => ?_, rfl⟩
      cases hd
      exact .inr ⟨rfl, rfl⟩
    | resetExited | resetGate | resetFinalization =>
      exact ⟨.inl rfl, nofun, nofun, nofun, nofun, nofun, nofun, nofun, rfl⟩
    | publish g => exact ⟨.inl rfl, fun _ h => h, fun _ => .inl, fun _ => .inl, nofun, nofun, nofun, nofun, rfl⟩
    | fail g => exact ⟨.inl rfl, fun _ h => h, fun _ => .inl, nofun, fun _ => .inr, nofun, nofun, nofun, rfl⟩
    | killNone | kill | finalize =>
      exact ⟨.inl rfl, fun _ h => h, fun _ => .inl, nofun, fun _ => .inl, nofun, nofun, nofun, rfl⟩
    | exit => exact ⟨.inl rfl, fun _ h => h, fun _ => .inl, nofun, nofun, nofun, nofun, nofun, rfl⟩
    | storePending g task =>
      refine ⟨.inl rfl, fun _ h => h, fun _ => .inl, nofun, fun g' h => .inl ?_, nofun, nofun, nofun, rfl⟩
      cases task with
      | none => exact h
      | some => cases h
    | deleteNone | delete | giveExited =>
      exact ⟨.inl rfl, fun _ h => h, fun _ => .inl, nofun, nofun, nofun, nofun, nofun, rfl⟩
  | check =>
    cases hm
    exact ⟨.inl rfl, nofun, nofun, nofun, nofun, nofun, nofun, nofun, rfl⟩
  | createFailed =>
    cases hm
    exact ⟨.inl rfl, nofun, nofun, nofun, nofun, nofun, nofun, nofun, rfl⟩
  | giveGate g =>
    cases hm
    exact ⟨.inl rfl, fun _ h => h, fun _ => .inl, fun _ => .inl, nofun, nofun, nofun, nofun, rfl⟩
  | enter | receive => rcases hn rfl with h | h <;> cases h
  | send g task => exact absurd rfl (hs g task)
  | unsent | lost => cases hst
  | dispatched g => exact absurd rfl (hd g)

/-! ## The invariants -/

/-- How much of the exit of `g` is behind it. -/
def Reached (w : World) (st : Stage) (g : Gen) (n : Nat) : Prop :=
  (st.gen ≠ some g ∧ n = 10) ∨ (st = .queued g ∧ n = 3) ∨ ∃ a f, w.call a = some f ∧ f.pc.exitStep = some (g, n)

/-- The log of every released worker is as long as its exit is far. -/
structure LogInv (w : World) (log : List Event) (st : Stage) : Prop where
  created : ∀ g, st.gen = some g → w.shared.created = g + 1
  fresh : ∀ g, w.shared.created ≤ g ∨ st.unreleased = some g → history g log = []
  abandoned : ∀ g, st.abandoned = some g → .released g ∉ log
  reached : ∀ g n, .released g ∈ log → Reached w st g n → history g log = (exitProtocol g).take n
  worker : ∀ a f g n, w.call a = some f → f.pc.exitStep = some (g, n) → n ≤ 2 → .released g ∈ log
  handle : ∀ g, .released g ∈ log → st = .queued g ∨ st = .dispatching g → w.shared.taskHandle = some g
  task : ∀ g task, .released g ∈ log → st = .deleting g task → task = some g
  recorded : st.unrecorded = false

/-- The worker `g` has made its last transition. -/
def Past (w : World) (log : List Event) (st : Stage) (g : Gen) : Prop :=
  (∃ f, w.call (.worker g, 0) = some f ∧ (f.pc = .worker g .storePending ∨ f.pc = .worker g .send)) ∨
    (st.recorded = some g ∧ .released g ∈ log)

structure StateInv (w : World) (log : List Event) (st : Stage) : Prop where
  exists_state : w.shared.threadState ≠ .destroyed
  settled : ∀ a f, w.call a = some f → ∀ g t, f.pc = .worker g t → t.settled (unstored f.transition) = true →
    w.shared.threadState = .terminating ∨ w.shared.threadState = .terminated
  final : ∀ a f, w.call a = some f → ∀ g t, f.pc = .worker g t → t.final (unstored f.transition) = true →
    w.shared.threadState = .terminated
  past : ∀ g, Past w log st g → w.shared.threadState = .terminated ∧ Calm w

theorem history_eq_nil_of (h : history g log = []) : .released g ∉ log := by
  intro hm
  have : Event.released g ∈ history g log := by simp [history, hm, Event.gen]
  rw [h] at this
  cases this

theorem Moved.unlogged (hm : Moved w p ok w' st st' a f f') (hs : ∀ g task, f.pc.stage ≠ some (.sending g task))
    (hd : ∀ g, f.pc.stage ≠ some (.signalled g))
    (hn : f.pc.stage = none → stageAfter f' = none ∨ stageAfter f' = some .checked)
    (hst : st.unrecorded = false) : Unlogged w.shared.registers w'.shared.registers st st' :=
  hm.passes.unlogged hm.move hs hd hn hst

/-- A step that logs nothing. -/
theorem LogInv.unlogged (h : LogInv w log st) (hm : Moved w p ok w' st st' a f f')
    (hu : Unlogged w.shared.registers w'.shared.registers st st') (hx : exitStepAfter f' = f.pc.exitStep) :
    LogInv w' log st' := by
  have hcreated := hu.created
  simp only [Shared.registers] at hcreated
  -- No call is further on in its exit than before.
  have hsame : ∀ a f g n, w'.call a = some f → f.pc.exitStep = some (g, n) →
      ∃ a f, w.call a = some f ∧ f.pc.exitStep = some (g, n) := by
    intro b₀ f₀ g n hb
    rw [hm.calls] at hb
    revert b₀ f₀
    refine forall_call_update (fun f₁ hf hs => ⟨a, f, hm.call, ?_⟩) fun b f₁ _ hb hs => ⟨b, f₁, hb, hs⟩
    rw [hf] at hx
    exact hx ▸ hs
  refine ⟨?_, ?_, ?_, ?_, ?_, ?_, ?_, hu.recorded⟩
  · intro g hg
    rcases hu.gen_of g hg with hold | ⟨rfl, hc⟩
    · rcases hcreated with hc | ⟨rfl, hc⟩
      · rw [hc]; exact h.created g hold
      · cases hg; exact hc
    · cases hg; exact hc
  · rintro g (hle | hg)
    · refine h.fresh g (.inl ?_)
      rcases hcreated with hc | ⟨-, hc⟩ <;> omega
    · rcases hu.unreleased g hg with hold | ⟨rfl, -⟩
      · exact h.fresh g (.inr hold)
      · exact h.fresh _ (.inl (Nat.le_refl _))
  · intro g hg
    rcases hu.abandoned g hg with hold | hold
    · exact h.abandoned g hold
    · exact history_eq_nil_of (h.fresh g (.inr hold))
  · rintro g n hr (⟨hne, rfl⟩ | ⟨hq, rfl⟩ | ⟨a, f, hf, hs⟩)
    · exact h.reached g _ hr (.inl ⟨fun hg => hne (hu.gen g hg), rfl⟩)
    · exact h.reached g _ hr (.inr (.inl ⟨(hu.queued g hq).1, rfl⟩))
    · exact h.reached g n hr (.inr (.inr (hsame a f g n hf hs)))
  · intro b f₁ g n hb hs hle
    obtain ⟨c, f₂, hc, hs'⟩ := hsame b f₁ g n hb hs
    exact h.worker c f₂ g n hc hs' hle
  · rintro g hr (hq | hd)
    · obtain ⟨hold, hh⟩ := hu.queued g hq
      exact Eq.trans hh (h.handle g hr (.inl hold))
    · obtain ⟨hold, hh⟩ := hu.dispatching g hd
      exact Eq.trans hh (h.handle g hr (.inr hold))
  · intro g task hr hd
    rcases hu.deleting g task hd with hold | ⟨hold, rfl⟩
    · exact h.task g task hr hold
    · exact h.handle g hr (.inr hold)

theorem mem_append_event {e e' : Event} (h : e' ∈ log ++ [e]) (hne : e' ≠ e) : e' ∈ log := by
  rcases List.mem_append.1 h with h | h
  · exact h
  · exact absurd (List.mem_singleton.1 h) hne

/-- A step that logs an event of the current generation. -/
theorem LogInv.logged {e : Event} (h : LogInv w log st) (hm : Moved w p ok w' st st' a f f')
    (hgen : st.gen = some e.gen) (hcreated : w'.shared.created = w.shared.created)
    (hothers : ∀ b f₁, b ≠ a → w.call b = some f₁ → f₁.pc.exitStep = none)
    (hgen' : st'.gen = some e.gen ∨ st' = .quiet) (hun : st'.unreleased = none)
    (habandoned : ∀ g, st'.abandoned = some g → .released g ∉ log ++ [e])
    (hstep : ∀ g n, exitStepAfter f' = some (g, n) → g = e.gen ∧ (n ≤ 2 → .released g ∈ log ++ [e]))
    (hnext : .released e.gen ∈ log ++ [e] → ∀ n, (st' = .quiet ∧ n = 10) ∨ (st' = .queued e.gen ∧ n = 3) ∨
      exitStepAfter f' = some (e.gen, n) → history e.gen log ++ [e] = (exitProtocol e.gen).take n)
    (hhandle : .released e.gen ∈ log ++ [e] → st' = .queued e.gen ∨ st' = .dispatching e.gen →
      w'.shared.taskHandle = some e.gen)
    (htask : ∀ g task, st' ≠ .deleting g task) (hrecorded : st'.unrecorded = false) :
    LogInv w' (log ++ [e]) st' := by
  -- The event belongs to the one generation that has a stage; the logs of the others stay.
  have hgen_of : ∀ g, st'.gen = some g → g = e.gen := by
    intro g hg
    rcases hgen' with he | rfl
    · rw [hg] at he
      exact Option.some.inj he
    · cases hg
  have hcalls : ∀ b f₁ g n, w'.call b = some f₁ → f₁.pc.exitStep = some (g, n) → exitStepAfter f' = some (g, n) := by
    rw [hm.calls]
    intro b f₁ g n hb
    revert b f₁
    refine forall_call_update (fun f₁ hf hs => ?_) fun b f₁ hne hb hs => ?_
    · rw [hf]; exact hs
    · rw [hothers b f₁ hne hb] at hs; cases hs
  have hlog : ∀ g, g ≠ e.gen → history g (log ++ [e]) = history g log := by
    intro g hne
    rw [history_append, history_other (Ne.symm hne), List.append_nil]
  refine ⟨?_, ?_, habandoned, ?_, ?_, ?_, ?_, hrecorded⟩
  · intro g hg
    rw [hcreated, hgen_of g hg]
    exact h.created _ hgen
  · rintro g (hle | hg)
    · have := h.created _ hgen
      rw [hlog g (by rintro rfl; omega)]
      exact h.fresh g (.inl (by omega))
    · rw [hun] at hg; cases hg
  · intro g n hr hreached
    by_cases hg : g = e.gen
    · subst hg
      rw [history_append, history_self]
      refine hnext hr n ?_
      rcases hreached with ⟨hne, rfl⟩ | ⟨hq, rfl⟩ | ⟨b, f₁, hb, hs⟩
      · rcases hgen' with he | he
        · exact absurd he hne
        · exact .inl ⟨he, rfl⟩
      · exact .inr (.inl ⟨hq, rfl⟩)
      · exact .inr (.inr (hcalls b f₁ _ n hb hs))
    · rw [hlog g hg]
      have hr' : .released g ∈ log := mem_append_event hr fun he => hg (by rw [← he]; rfl)
      refine h.reached g n hr' (.inl ⟨fun he => hg (Option.some.inj (he.symm.trans hgen)), ?_⟩)
      rcases hreached with ⟨-, rfl⟩ | ⟨rfl, -⟩ | ⟨b, f₁, hb, hs⟩
      · rfl
      · exact absurd (hgen_of g rfl) hg
      · exact absurd (hstep g n (hcalls b f₁ g n hb hs)).1 hg
  · intro b f₁ g n hb hs hle
    exact (hstep g n (hcalls b f₁ g n hb hs)).2 hle
  · intro g hr hst
    obtain rfl : g = e.gen := hgen_of g (by rcases hst with rfl | rfl <;> rfl)
    exact hhandle hr hst
  · intro g task _ hd
    exact absurd hd (htask g task)

/-- The call that logs the event goes on with the exit. -/
theorem LogInv.goesOn {e : Event} {n : Nat} (h : LogInv w log st) (hm : Moved w p ok w' st st' a f f')
    (hgen : st.gen = some e.gen) (hcreated : w'.shared.created = w.shared.created)
    (hothers : ∀ b f₁, b ≠ a → w.call b = some f₁ → f₁.pc.exitStep = none)
    (hst' : st' = .looping e.gen ∨ st' = .dispatching e.gen ∨ st' = .delivering e.gen ∨ st' = .signalled e.gen)
    (hx : exitStepAfter f' = some (e.gen, n)) (hworker : n ≤ 2 → .released e.gen ∈ log ++ [e])
    (hnext : .released e.gen ∈ log ++ [e] → history e.gen log ++ [e] = (exitProtocol e.gen).take n)
    (hhandle : .released e.gen ∈ log ++ [e] → st' = .dispatching e.gen → w'.shared.taskHandle = some e.gen) :
    LogInv w' (log ++ [e]) st' := by
  have hnot : st' ≠ .quiet ∧ st' ≠ .queued e.gen := by
    rcases hst' with rfl | rfl | rfl | rfl <;> exact ⟨nofun, nofun⟩
  refine h.logged hm hgen hcreated hothers ?_ ?_ ?_ ?_ ?_ ?_ ?_ ?_
  · rcases hst' with rfl | rfl | rfl | rfl <;> exact .inl rfl
  · rcases hst' with rfl | rfl | rfl | rfl <;> rfl
  · rcases hst' with rfl | rfl | rfl | rfl <;> exact nofun
  · intro g m hg
    rw [hx] at hg
    cases hg
    exact ⟨rfl, hworker⟩
  · rintro hr m (⟨hq, -⟩ | ⟨hq, -⟩ | hm)
    · exact absurd hq hnot.1
    · exact absurd hq hnot.2
    · rw [hx] at hm
      cases hm
      exact hnext hr
  · rintro hr (hq | hd)
    · exact absurd hq hnot.2
    · exact hhandle hr hd
  · rcases hst' with rfl | rfl | rfl | rfl <;> exact nofun
  · rcases hst' with rfl | rfl | rfl | rfl <;> rfl

/-- An event of a generation that `Initialize` gives up. -/
theorem LogInv.gaveUp {e : Event} (h : LogInv w log st) (hm : Moved w p ok w' st st' a f f')
    (habandoned : st.abandoned = some e.gen) (hne : e ≠ .released e.gen)
    (hcreated : w'.shared.created = w.shared.created)
    (hothers : ∀ b f₁, b ≠ a → w.call b = some f₁ → f₁.pc.exitStep = none) (hgen' : st'.gen = some e.gen)
    (hun : st'.unreleased = none) (habandoned' : ∀ g, st'.abandoned = some g → g = e.gen)
    (hx : exitStepAfter f' = none) (htask : ∀ g task, st' ≠ .deleting g task) (hrecorded : st'.unrecorded = false) :
    LogInv w' (log ++ [e]) st' := by
  have hgen : st.gen = some e.gen := by
    cases st with
    | claimed g task => cases task <;> cases habandoned; rfl
    | sending g task => cases task <;> cases habandoned; rfl
    | failing g task => exact habandoned
    | failed g => exact habandoned
    | _ => cases habandoned
  have hnot : .released e.gen ∉ log ++ [e] := fun hr => h.abandoned _ habandoned (mem_append_event hr hne.symm)
  refine h.logged hm hgen hcreated hothers (.inl hgen') hun ?_ ?_ ?_ ?_ htask hrecorded
  · intro g hg
    rw [habandoned' g hg]
    exact hnot
  · intro g n hn
    rw [hx] at hn
    cases hn
  · intro hr
    exact absurd hr hnot
  · intro hr
    exact absurd hr hnot

theorem Passes.eq_of_some {x : Stage} (h : Passes l st (some x) st') : st' = x := by
  cases h <;> rfl

theorem Move.handle_of_send {task : Option Gen} (h : Move (some (.sending g task)) r none r') :
    r'.taskHandle = r.taskHandle := by
  cases h
  rfl

theorem Move.handle_of_receive (h : Move none r (some (.dispatching g)) r') : r'.taskHandle = r.taskHandle := by
  cases h
  rfl

theorem Pc.exitStep_of_stage {pc : Pc} (h : pc.stage = none) : pc.exitStep = none := by
  cases pc with
  | worker g t => cases t <;> first | rfl | cases h
  | dispatcher t => cases t <;> first | rfl | cases h
  | _ => rfl

theorem Pc.worker_of_sending {pc : Pc} {h : Gen} (hs : pc.stage = some (.sending g (some h))) :
    pc = .worker g .send := by
  cases pc with
  | worker g' t => cases t <;> cases hs; rfl
  | dispatcher t => cases t <;> cases hs
  | initializeThread t => cases t <;> cases hs
  | start t =>
    cases t with
    | initializeThread t => cases t <;> cases hs
    | _ => cases hs
  | _ => cases hs

/-- The queue took every record, so no worker clears the flag for its own. -/
theorem LogInv.not_unsent (h : LogInv w log st) (hst : AtStage w st) (hf : w.call a = some f) (g : Gen) :
    f.pc ≠ .worker g .clearPending := by
  intro hpc
  have he := hst.token.eq_of_holds (a := a) (y := .unsent (some g)) (by simp [World.stages, hf, hpc]; rfl)
  have hr := h.recorded
  rw [← he] at hr
  cases hr

theorem LogInv.moved (h : LogInv w log st) (hs : StateInv w log st) (hst : AtStage w st)
    (hm : Moved w p ok w' st st' a f f') (hok : f.Ok a) (hsend : Sends f ok) :
    LogInv w' (log ++ (f.event w.shared ok).toList) st' := by
  have hlogs := hm.frame.logs hok hsend (h.not_unsent hst hm.call)
  have hstage : ∀ x, f.pc.stage = some x → st = x := fun x hx =>
    (hst.token.eq_of_holds (a := a) (y := x) (by simp [World.stages, hm.call, hx])).symm
  have hheld : f.pc.stage ≠ none → ∀ b f₁, b ≠ a → w.call b = some f₁ → f₁.pc.exitStep = none :=
    fun hne b f₁ hba hb => Pc.exitStep_of_stage (hst.stage_none hb hm.call hne (Ne.symm hba))
  have hrest : st.rest = true → ∀ b f₁, b ≠ a → w.call b = some f₁ → f₁.pc.exitStep = none := by
    intro hr b f₁ _ hb
    have hnone := hst.token.none_of_rest hr b
    exact Pc.exitStep_of_stage (by simpa [World.stages, hb] using hnone)
  have hcreated : ∀ x, stageAfter f' = x → (∀ n, x ≠ some (.made n)) → w'.shared.created = w.shared.created := by
    rintro x rfl hne
    rcases hm.move.created with hc | hc
    · exact hc
    · exact absurd hc (hne _)
  have hfits := hst.fits
  have hpass := hm.passes
  have hmove := hm.move
  generalize hl : f.pc.stage = l at hlogs hstage hheld hpass hmove
  generalize hx : f.pc.exitStep = x at hlogs
  generalize f.event w.shared ok = e at hlogs
  generalize hl' : stageAfter f' = l' at hlogs hcreated hpass hmove
  generalize hx' : exitStepAfter f' = x' at hlogs
  -- The log so far is as long as the call's place in the exit says.
  have hold : ∀ g n, x = some (g, n) → .released g ∈ log → history g log = (exitProtocol g).take n :=
    fun g n hxn hr => h.reached g n hr (.inr (.inr ⟨a, f, hm.call, by rw [hx, hxn]⟩))
  cases hlogs with
  | nothing _ _ _ hsending hsignalled hnone =>
    subst hl hl'
    simpa using h.unlogged hm (hm.unlogged hsending hsignalled hnone h.recorded) (by rw [hx', hx])
  | release g =>
    obtain rfl := hpass.eq_of_some
    have hgated : st = .gated g := by cases hpass; rfl
    subst hgated
    refine h.goesOn hm rfl (hcreated _ rfl (by rintro _ ⟨⟩)) (hrest rfl) (.inl rfl) hx'
      (fun _ => by simp [Event.gen]) ?_ (by rintro _ ⟨⟩)
    intro _
    simp only [Event.gen]
    rw [h.fresh g (.inr rfl)]
    rfl
  | leave g =>
    obtain rfl := hpass.eq_of_some
    obtain rfl := hstage _ rfl
    have hr := h.worker a f g 1 hm.call hx (by omega)
    refine h.goesOn hm rfl (hcreated _ rfl (by rintro _ ⟨⟩)) (hheld (by rintro ⟨⟩)) (.inl rfl) hx'
      (fun _ => List.mem_append_left _ hr)
      ?_ (by rintro _ ⟨⟩)
    intro _
    simp only [Event.gen]
    rw [hold g 1 rfl hr]
    rfl
  | exited g => cases hpass
  | send g =>
    obtain rfl := hstage _ rfl
    have hqueued : st' = .queued g := by cases hpass; rfl
    subst hqueued
    have hr := h.worker a f g 2 hm.call hx (by omega)
    have hterminated := hs.final a f hm.call g .send (Pc.worker_of_sending hl) rfl
    refine h.logged hm rfl (hcreated _ rfl (by rintro _ ⟨⟩)) (hheld (by rintro ⟨⟩)) (.inl rfl) rfl (by rintro _ ⟨⟩)
      ?_ ?_ ?_ (by rintro _ _ ⟨⟩) rfl
    · intro g' n hn
      rw [hx'] at hn
      cases hn
    · rintro - n (⟨hn, -⟩ | ⟨-, rfl⟩ | hn)
      · cases hn
      · simp only [Event.gen]
        rw [hold g 2 rfl hr, hterminated]
        rfl
      · rw [hx'] at hn
        cases hn
    · rintro - -
      exact (Move.handle_of_send hmove).trans hfits.2.1.handle
  | receive g =>
    obtain rfl := hpass.eq_of_some
    have hqueued : st = .queued g := by cases hpass; rfl
    subst hqueued
    refine h.goesOn hm rfl (hcreated _ rfl (by rintro _ ⟨⟩)) (hrest rfl) (.inr (.inl rfl)) hx' (fun hn => by omega)
      ?_ ?_
    · intro hr
      simp only [Event.gen]
      rw [h.reached g 3 (mem_append_event hr (by rintro ⟨⟩)) (.inr (.inl ⟨rfl, rfl⟩))]
      rfl
    · rintro hr -
      exact (Move.handle_of_receive hmove).trans (h.handle g (mem_append_event hr (by rintro ⟨⟩)) (.inl rfl))
  | delete g task =>
    obtain rfl := hpass.eq_of_some
    obtain rfl := hstage _ rfl
    refine h.goesOn hm rfl (hcreated _ rfl (by rintro _ ⟨⟩)) (hheld (by rintro ⟨⟩)) (.inr (.inr (.inl rfl))) hx'
      (fun hn => by omega) ?_
      (by rintro _ ⟨⟩)
    intro hr
    have hr' := mem_append_event hr (by rintro ⟨⟩)
    simp only [Event.gen] at hr' ⊢
    rw [hold g 4 rfl hr', h.task g task hr' rfl]
    rfl
  | readOther g hterminated =>
    obtain rfl := hpass.eq_of_some
    obtain rfl := hstage _ rfl
    refine h.goesOn hm rfl (hcreated _ rfl (by rintro _ ⟨⟩)) (hheld (by rintro ⟨⟩)) (.inr (.inr (.inl rfl))) hx'
      (fun hn => by omega) ?_
      (by rintro _ ⟨⟩)
    intro hr
    exact absurd (hs.past g (.inr ⟨rfl, mem_append_event hr (by rintro ⟨⟩)⟩)).1 hterminated
  | deliver n e hn hne hnext =>
    obtain rfl := hpass.eq_of_some
    obtain rfl := hstage _ rfl
    refine h.goesOn hm rfl (hcreated _ rfl (by rintro _ ⟨⟩)) (hheld (by rintro ⟨⟩)) (.inr (.inr (.inl rfl))) hx'
      (fun hn => by omega) ?_
      (by rintro _ ⟨⟩)
    intro hr
    rw [hold _ n rfl (mem_append_event hr hne.symm)]
    exact hnext
  | giveExited g =>
    obtain rfl := hpass.eq_of_some
    obtain rfl := hstage _ rfl
    refine h.goesOn hm rfl (hcreated _ rfl (by rintro _ ⟨⟩)) (hheld (by rintro ⟨⟩)) (.inr (.inr (.inr rfl))) hx'
      (fun hn => by omega) ?_
      (by rintro _ ⟨⟩)
    intro hr
    simp only [Event.gen]
    rw [hold g 8 rfl (mem_append_event hr (by rintro ⟨⟩))]
    rfl
  | clearPending g =>
    obtain rfl := hstage _ rfl
    have hquiet : st' = .quiet := by cases hpass; rfl
    subst hquiet
    refine h.logged hm rfl (hcreated _ rfl (by rintro _ ⟨⟩)) (hheld (by rintro ⟨⟩)) (.inr rfl) rfl (by rintro _ ⟨⟩)
      ?_ ?_ ?_ (by rintro _ _ ⟨⟩) rfl
    · intro g' n hn
      rw [hx'] at hn
      cases hn
    · rintro hr n (⟨-, rfl⟩ | ⟨hn, -⟩ | hn)
      · simp only [Event.gen]
        rw [hold g 9 rfl (mem_append_event hr (by rintro ⟨⟩))]
        rfl
      · cases hn
      · rw [hx'] at hn
        cases hn
    · rintro - (hn | hn) <;> cases hn
  | deleteFailed g task =>
    obtain rfl := hpass.eq_of_some
    obtain rfl := hstage _ rfl
    exact h.gaveUp hm rfl (by rintro ⟨⟩) (hcreated _ rfl (by rintro _ ⟨⟩)) (hheld (by rintro ⟨⟩)) rfl rfl
      (fun g' hg => (Option.some.inj hg).symm) hx' (by rintro _ _ ⟨⟩) rfl
  | sendFailed g =>
    obtain rfl := hstage _ rfl
    have hqueued : st' = .queued g := by cases hpass; rfl
    subst hqueued
    exact h.gaveUp hm rfl (by rintro ⟨⟩) (hcreated _ rfl (by rintro _ ⟨⟩)) (hheld (by rintro ⟨⟩)) rfl rfl
      (by rintro _ ⟨⟩) hx' (by rintro _ _ ⟨⟩) rfl

/-! ## The state -/

theorem Passes.recorded (h : Passes l st l' st') (hm : Move l r l' r') (hs : st'.recorded = some g) :
    st.recorded = some g ∨ ∃ task, l = some (.sending g task) := by
  cases h with
  | keep => exact .inl hs
  | hold => cases hm <;> exact .inl hs
  | send g' task => cases hs; exact .inr ⟨task, rfl⟩
  | receive => exact .inl hs
  | check | createFailed | giveGate | enter | unsent | lost | dispatched => cases hs

theorem Logs.released {x x' : Option (Gen × Nat)} (h : Logs s l x (some (.released g)) l' x') :
    l = none ∧ l' = some (.looping g) := by
  generalize he : some (Event.released g) = e at h
  cases h with
  | release => cases he; exact ⟨rfl, rfl⟩
  | deliver n e hn hne => cases he; exact absurd rfl hne
  | _ => cases he

/-- A worker at the end of its last transition is the only one that holds the
lock. -/
theorem holds_of_unlock (hl : LockInv w) (hoks : CallsOk w) (hm : Moved w p ok w' st st' a f f')
    {tr : StateTransition} {t : WorkerPc} (hpc : f.pc = .worker g t) (htr : f.transition = some tr)
    (hu : tr.pc = .unlock) : ∀ b f₁, b ≠ a → w.call b = some f₁ → f₁.holds = false := by
  obtain ⟨n, hd, hn⟩ := World.call_of_top hm.top
  obtain ⟨rfl, rfl⟩ := Prod.mk.inj ((hoks _ f hn).worker g t hpc)
  obtain rfl := (hoks a f hm.call).worker g t hpc
  have howner := hl.owner_of_holds hm.call (by rw [Frame.holds_of_some htr, hu]; rfl)
  rintro ⟨q, m⟩ f₁ hne hb
  by_contra hholds
  have hq := hl.owner_of_holds hb (by simpa using hholds)
  obtain rfl : .worker g = q := Option.some.inj (howner.symm.trans hq)
  have hm0 : m = 0 := by
    have hlt : m < w.depth (.worker g) := (World.call_eq_some.1 hb).1
    omega
  exact hne (by rw [hm0])

/-- After a worker's last transition no call is past the lock in one. -/
theorem calm_of_unlock (hl : LockInv w) (hoks : CallsOk w) (hm : Moved w p ok w' st st' a f f')
    {tr : StateTransition} {t : WorkerPc} (hpc : f.pc = .worker g t) (htr : f.transition = some tr)
    (hu : tr.pc = .unlock) (hnone : ∀ f₁, f' = some f₁ → f₁.transition = none) : Calm w' := by
  rw [Calm, hm.calls]
  refine forall_call_update (fun f₁ hf tr' htr' => ?_) fun b f₁ hne hb tr' htr' => ?_
  · rw [hnone f₁ hf] at htr'
    cases htr'
  · have hholds := holds_of_unlock hl hoks hm hpc htr hu b f₁ hne hb
    rw [Frame.holds_of_some htr'] at hholds
    exact .inl (by simpa using hholds)

/-- A step of a call that has a stage, or of any call while the record is out,
releases no worker. -/
theorem Moved.released_before (hm : Moved w p ok w' st st' a f f') (hok : f.Ok a) (hsend : Sends f ok)
    (hclear : ∀ g, f.pc ≠ .worker g .clearPending) (hr : .released g ∈ log ++ (f.event w.shared ok).toList)
    (hnot : f.pc.stage ≠ none ∨ st.recorded = some g) : .released g ∈ log := by
  rcases List.mem_append.1 hr with hr | hr
  · exact hr
  · have hlogs := hm.frame.logs hok hsend hclear
    rw [Option.mem_toList] at hr
    rw [Option.mem_def.1 hr] at hlogs
    obtain ⟨hl, hl'⟩ := hlogs.released
    have hpass := hm.passes
    rw [hl, hl'] at hpass
    cases hpass
    rcases hnot with hnot | hnot
    · exact absurd hl hnot
    · cases hnot

theorem StateInv.moved (h : StateInv w log st) (hlog : LogInv w log st) (hst : AtStage w st) (hc : ChecksInv w st)
    (hl : LockInv w) (hoks : CallsOk w) (hu : Unmanaged w) (hm : Moved w p ok w' st st' a f f')
    (hsend : Sends f ok) : StateInv w' (log ++ (f.event w.shared ok).toList) st' := by
  have hok := hoks a f hm.call
  have hexists := hm.frame.not_destroyed hok (hu.calls a f hm.call) h.exists_state
  have hkept : ∀ b f₁, w.call b = some f₁ → ∀ g t u, f₁.pc = .worker g t → t.settled u = true →
      (w.shared.threadState = .terminated → w'.shared.threadState = .terminated) ∧
        (w.shared.threadState = .terminating ∨ w.shared.threadState = .terminated →
          w'.shared.threadState = .terminating ∨ w'.shared.threadState = .terminated) := by
    intro b f₁ hb g t u hpc ht
    refine hc.state_moved hm hok hu (hst.ne_quiet hb ?_)
    rw [hpc]
    exact WorkerPc.stage_of_settled ht
  have hworker : ∀ f₁ g t', f' = some f₁ → f₁.pc = .worker g t' →
      FrameStep w.shared p f ok w'.shared (some f₁) ∧ ∃ t, f.pc = .worker g t := by
    intro f₁ g t' hf hpc
    have hstep := hm.frame
    rw [hf] at hstep
    exact ⟨hstep, hstep.method.1 g t' hpc⟩
  refine ⟨hexists, ?_, ?_, ?_⟩
  · rw [hm.calls]
    refine forall_call_update (fun f₁ hf g t' hpc' hs => ?_) fun b f₁ _ hb g t hpc hs =>
      (hkept b f₁ hb g t _ hpc hs).2 (h.settled b f₁ hb g t hpc hs)
    obtain ⟨hstep, t, hpc⟩ := hworker f₁ g t' hf hpc'
    rcases hstep.settled hok hpc hpc' hs with hold | hend
    · exact (hkept a f hm.call g t _ hpc hold).2 (h.settled a f hm.call g t hpc hold)
    · exact ending_cases hend hexists
  · rw [hm.calls]
    refine forall_call_update (fun f₁ hf g t' hpc' hs => ?_) fun b f₁ _ hb g t hpc hs =>
      (hkept b f₁ hb g t _ hpc (WorkerPc.settled_of_final hs)).1 (h.final b f₁ hb g t hpc hs)
    obtain ⟨hstep, t, hpc⟩ := hworker f₁ g t' hf hpc'
    rcases hstep.final hok hpc hpc' hs with hold | ⟨rfl, hstate⟩
    · exact (hkept a f hm.call g t _ hpc (WorkerPc.settled_of_final hold)).1 (h.final a f hm.call g t hpc hold)
    · rw [hstate]
      rcases h.settled a f hm.call g _ hpc rfl with hs' | hs' <;> simp [hs']
  · -- The worker was past its last transition before, or comes out of it now.
    have hold : ∀ g, Past w log st g → st ≠ .quiet →
        w'.shared.threadState = .terminated ∧ Calm w' := by
      intro g hpast hne
      obtain ⟨hterminated, hcalm⟩ := h.past g hpast
      have hterminated' := (hc.state_moved hm hok hu hne).1 hterminated
      exact ⟨hterminated', hcalm.moved hm hterminated hterminated'⟩
    have hframe : ∀ b f₁ g, w.call b = some f₁ → f₁.pc = .worker g .storePending ∨ f₁.pc = .worker g .send →
        w'.shared.threadState = .terminated ∧ Calm w' := by
      intro b f₁ g hb hpc
      have hworker : ∃ t, f₁.pc = .worker g t ∧ t.stage g ≠ none := by
        rcases hpc with hpc | hpc
        · exact ⟨_, hpc, Option.some_ne_none _⟩
        · exact ⟨_, hpc, Option.some_ne_none _⟩
      obtain ⟨t, ht, hstage⟩ := hworker
      obtain rfl := (hoks b f₁ hb).worker g t ht
      exact hold g (.inl ⟨f₁, hb, hpc⟩) (hst.ne_quiet hb (by rw [ht]; exact hstage))
    rintro g (⟨f₁, hb, hpc⟩ | ⟨hrec, hr⟩)
    · rw [hm.calls, Function.update_apply] at hb
      split at hb
      · have hstep := hm.frame
        rw [hb] at hstep
        rcases hstep.to_past hok hpc with hpast | ⟨hpc₀, tr, htr, hunlock, hnone⟩
        · exact hframe a f g hm.call hpast
        · have hfinal := h.final a f hm.call g _ hpc₀ (by simp [WorkerPc.final, unstored, htr, hunlock])
          have hne := hst.ne_quiet hm.call (by rw [hpc₀]; exact Option.some_ne_none _)
          refine ⟨(hc.state_moved hm hok hu hne).1 hfinal, calm_of_unlock hl hoks hm hpc₀ htr hunlock fun f₂ hf => ?_⟩
          rw [hb] at hf
          cases hf
          exact hnone
      · exact hframe _ f₁ g hb hpc
    · have hmem := hm.released_before hok hsend (hlog.not_unsent hst hm.call) hr
      rcases hm.passes.recorded hm.move hrec with hrec' | ⟨task, htask⟩
      · exact hold g (.inr ⟨hrec', hmem (.inr hrec')⟩) (by rintro rfl; cases hrec')
      · have hst' := hst.token.eq_of_holds (a := a) (y := .sending g task) (by simp [World.stages, hm.call, htask])
        have hr' := hmem (.inl (by rw [htask]; exact Option.some_ne_none _))
        cases task with
        | none => exact absurd hr' (hlog.abandoned g (by rw [← hst']; rfl))
        | some x => exact hframe a f g hm.call (.inr (Pc.worker_of_sending htask))

/-! ## Runs -/

/-- The queue takes every record. -/
def SendsSucceed (w : World) : Action → Prop
  | .call _ _ => True
  | .step p ok => ∀ f, w.top p = some f → Sends f ok

/-- Calls of `Initialize` and `Start` do not overlap, and `Send` succeeds. -/
def Assumed (w : World) (a : Action) : Prop := NeverOverlap w a ∧ SendsSucceed w a

structure ExitInv (x : World × List Event) (st : Stage) : Prop where
  calls : CallsOk x.1
  unmanaged : Unmanaged x.1
  lock : LockInv x.1
  one : OneInitializer x.1
  stage : AtStage x.1 st
  checks : ChecksInv x.1 st
  log : LogInv x.1 x.2 st
  state : StateInv x.1 x.2 st

variable {x y : World × List Event} {action : Action}

theorem LogInv.pushed {request : Request} (h : LogInv w log st) (hs : step w (.call p request) = some w') :
    LogInv w' log st := by
  obtain ⟨hshared, -, b, -, hnone, hcall⟩ := call_update hs
  have hsame : ∀ a f g n, w'.call a = some f → f.pc.exitStep = some (g, n) → w.call a = some f := by
    rw [hcall]
    intro a f g n hf hx
    rw [Function.update_apply] at hf
    split at hf
    · cases hf
      cases request <;> cases hx
    · exact hf
  refine ⟨by rw [hshared]; exact h.created, by rw [hshared]; exact h.fresh, h.abandoned, ?_, ?_,
    by rw [hshared]; exact h.handle, h.task, h.recorded⟩
  · rintro g n hr (hgen | hq | ⟨a, f, hf, hx⟩)
    · exact h.reached g n hr (.inl hgen)
    · exact h.reached g n hr (.inr (.inl hq))
    · exact h.reached g n hr (.inr (.inr ⟨a, f, hsame a f g n hf hx, hx⟩))
  · intro a f g n hf hx hle
    exact h.worker a f g n (hsame a f g n hf hx) hx hle

theorem StateInv.pushed {request : Request} (h : StateInv w log st) (hs : step w (.call p request) = some w') :
    StateInv w' log st := by
  obtain ⟨hshared, -, b, -, hnone, hcall⟩ := call_update hs
  have hnot : ∀ g t, request.entry ≠ .worker g t := by
    cases request <;> nofun
  refine ⟨by rw [hshared]; exact h.exists_state, ?_, ?_, ?_⟩
  · rw [hcall, hshared]
    refine forall_call_update (fun f hf g t hpc _ => ?_) fun b f _ hb => h.settled b f hb
    cases hf
    exact absurd hpc (hnot g t)
  · rw [hcall, hshared]
    refine forall_call_update (fun f hf g t hpc _ => ?_) fun b f _ hb => h.final b f hb
    cases hf
    exact absurd hpc (hnot g t)
  · intro g hpast
    have hold : Past w log st g := by
      refine hpast.imp_left ?_
      rintro ⟨f, hf, hpc⟩
      rw [hcall, Function.update_apply] at hf
      split at hf
      · cases hf
        rcases hpc with hpc | hpc <;> exact absurd hpc (hnot g _)
      · exact ⟨f, hf, hpc⟩
    obtain ⟨hterminated, hcalm⟩ := h.past g hold
    refine ⟨by rw [hshared]; exact hterminated, ?_⟩
    rw [Calm, hcall]
    refine forall_call_update (fun f hf tr htr => ?_) fun b f _ hb => hcalm b f hb
    cases hf
    cases htr

/-- A step of a task keeps the invariants. -/
theorem ExitInv.moved (h : ExitInv x st) (hc : Assumed x.1 (.step p ok))
    (hs : loggedSystem.step x (.step p ok) = some y) :
    ∃ st' n f f', x.1.depth p = n + 1 ∧ Moved x.1 p ok y.1 st st' (p, n) f f' ∧
      y.2 = x.2 ++ (f.event x.1.shared ok).toList ∧ ExitInv y st' := by
  obtain ⟨hstep, hlog⟩ := loggedSystem_step.1 hs
  obtain ⟨st', n, f, f', hd, hm, hst'⟩ :=
    h.stage.moved_last h.calls h.unmanaged.top (h.checks.checksHold h.stage _) hstep
  have hok := h.calls (p, n) f hm.call
  have hsend := hc.2 f hm.top
  have hevent : World.event x.1 (.step p ok) = f.event x.1.shared ok := by simp [World.event, hm.top]
  rw [hevent] at hlog
  refine ⟨st', n, f, f', hd, hm, hlog, h.calls.step hstep, h.unmanaged.step hstep, h.lock.step hstep,
    h.one.step hc.1 hstep, hst', h.checks.moved h.stage h.one.alone hm, ?_, ?_⟩
  · rw [hlog]
    exact h.log.moved h.state h.stage hm hok hsend
  · rw [hlog]
    exact h.state.moved h.log h.stage h.checks h.lock h.calls h.unmanaged hm hsend

/-- A call keeps the invariants, and the stage. -/
theorem ExitInv.pushed {request : Request} (h : ExitInv x st) (hc : Assumed x.1 (.call p request))
    (hs : loggedSystem.step x (.call p request) = some y) : ExitInv y st := by
  obtain ⟨hstep, hlog⟩ := loggedSystem_step.1 hs
  have hlog : y.2 = x.2 := by simpa [World.event] using hlog
  refine ⟨h.calls.step hstep, h.unmanaged.step hstep, h.lock.step hstep, h.one.step hc.1 hstep,
    h.stage.pushed hstep, h.checks.pushed hstep, ?_, ?_⟩
  · rw [hlog]; exact h.log.pushed hstep
  · rw [hlog]; exact h.state.pushed hstep

theorem exitInv_start (s : Shared) (hs : Stage.quiet.Fits s.registers) (hstate : s.threadState = .uninitialized)
    (hfree : s.transitionOwner = none ∧ s.transitionDepth = 0) (hm : s.managed = false) :
    ExitInv (.start s, []) .quiet := by
  -- At the start no call has a stage or a transition.
  have hframe : ∀ a f, (World.start s).call a = some f → f.pc.stage = none ∧ f.transition = none := by
    intro a f hf
    rcases start_call hf with ⟨g, -, rfl⟩ | ⟨-, rfl⟩ <;> exact ⟨rfl, rfl⟩
  have hnot : ∀ a f, (World.start s).call a = some f → ∀ g t, f.pc = .worker g t → ∀ u, t.settled u = false := by
    intro a f hf g t hpc u
    by_contra hne
    have hstage := (hframe a f hf).1
    rw [hpc] at hstage
    exact WorkerPc.stage_of_settled (g := g) (by simpa using hne) hstage
  refine ⟨?_, ⟨hm, ?_⟩, lockInv_start s hfree.1 hfree.2, oneInitializer_start s, atStage_start s hs,
    checksInv_start s, ?_, ?_⟩
  · intro a f hf
    rcases start_call hf with ⟨g, rfl, rfl⟩ | ⟨rfl, rfl⟩
    · exact ok_waitGate g
    · exact ok_receive
  · intro a f hf t ht
    rcases start_call hf with ⟨g, -, rfl⟩ | ⟨-, rfl⟩ <;> cases ht
  · refine ⟨(by rintro _ ⟨⟩), fun _ _ => rfl, (by rintro _ ⟨⟩), (by rintro _ _ ⟨⟩), fun a f g n hf hx => ?_,
      (by rintro _ ⟨⟩), (by rintro _ _ ⟨⟩), rfl⟩
    rw [Pc.exitStep_of_stage (hframe a f hf).1] at hx
    cases hx
  · refine ⟨by rw [World.start, hstate]; rintro ⟨⟩, ?_, ?_, ?_⟩
    · intro a f hf g t hpc ht
      rw [hnot a f hf g t hpc] at ht
      cases ht
    · intro a f hf g t hpc ht
      have := WorkerPc.settled_of_final ht
      rw [hnot a f hf g t hpc] at this
      cases this
    · rintro g (⟨f, hf, hpc⟩ | ⟨hrec, -⟩)
      · have hstage := (hframe _ f hf).1
        rcases hpc with hpc | hpc <;> rw [hpc] at hstage <;> cases hstage
      · cases hrec

end ESPressio.Lifecycle
