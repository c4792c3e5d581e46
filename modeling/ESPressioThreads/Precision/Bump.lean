import Mathlib.Data.List.Induction
import ESPressioThreads.Precision.Schedule
import ESPressioThreads.Precision.Wake
/-!
# Late bumps

`Bump` reads the clock before it takes the lock and stores its reading whatever
the schedule has become since. An iteration that starts in between has moved
the deadline past its own start, and the store moves it back: the next
iteration then counts slots that were executed or counted before.

An `Iterate` that throws is one more step here: the worker leaves `OnLoop`.
-/

namespace ESPressio.Precision.Wake

open Transition

/-- `none` is an `Iterate` that throws. -/
def stepOrThrow (m : Machine) : Option Action → Option Machine
  | some a => step m a
  | none =>
    match m.loop with
    | .iterating _ _ => some { m with loop := .outside }
    | _ => none

/-- What the schedule sees of a run. `cleared` when it has to be initialised
again. -/
inductive BumpEvent
  | bumpRead (i : OpId) (now : UInt64)
  | sampled (now : UInt64)
  | started (start deadline period skipped : UInt64)
  | bumpStored (i : OpId) (now : UInt64)
  | cleared
  deriving DecidableEq, Repr

def bumpEvent (m : Machine) : Option Action → Option BumpEvent
  | some (.readClock i now) => some (.bumpRead i now)
  | some (.sample now) => some (.sampled now)
  | some (.step i _) =>
    match m.ops i with
    | .bump now => some (.bumpStored i now)
    | .updatePeriod _ | .resetSchedule _ => some .cleared
    | _ => none
  | some .schedule =>
    match m.loop with
    | .sampled now =>
      match (scheduleLocked m.timing now).2 with
      | .iterate _ skipped _ => some (.started now (deadlineAt m.timing now) m.timing.iterationPeriod skipped)
      | .wait _ => none
    | _ => none
  | some (.call _ _) | some (.store _ _) | some (.nest _) | some .onLoop | some .woken | some .timeout
  | some (.complete _) => none
  | none => none

/-- Runs from any settings, in any state, with the log of the schedule. -/
def bumped : System (Machine × List BumpEvent) (Option Action) :=
  System.logged { init := fun m => ∃ t s signal, m = .start t s signal, step := stepOrThrow } bumpEvent

/-! ## The log -/

/-- The clock readings that the schedule uses, in their order. -/
def clockReadings (l : List BumpEvent) : List UInt64 := l.filterMap fun
  | .bumpRead _ now => some now
  | .sampled now => some now
  | _ => none

def startsNext (starts : List UInt64) : BumpEvent → List UInt64
  | .cleared => []
  | .started start _ _ _ => starts ++ [start]
  | _ => starts

/-- The starts of the iterations since the schedule was last initialised. -/
def starts (l : List BumpEvent) : List UInt64 := l.foldl startsNext []

def startsSinceReadNext (i : OpId) (starts : List UInt64) : BumpEvent → List UInt64
  | .bumpRead j _ => if j = i then [] else starts
  | e => startsNext starts e

/-- Those of them that came after `i` read the clock. -/
def startsSinceRead (i : OpId) (l : List BumpEvent) : List UInt64 := l.foldl (startsSinceReadNext i) []

section
variable {l : List BumpEvent} {e : BumpEvent} {i : OpId} {s : UInt64}

theorem starts_append : starts (l ++ [e]) = startsNext (starts l) e := by
  simp [starts]

theorem startsSinceRead_append : startsSinceRead i (l ++ [e]) = startsSinceReadNext i (startsSinceRead i l) e := by
  simp [startsSinceRead]

theorem startsSinceRead_subset (h : s ∈ startsSinceRead i l) : s ∈ starts l := by
  induction l using List.reverseRecOn with
  | nil => exact h
  | append_singleton l e ih =>
    rw [startsSinceRead_append] at h
    rw [starts_append]
    cases e with
    | bumpRead j now =>
      simp only [startsSinceReadNext] at h
      split at h
      · cases h
      · exact ih h
    | sampled | bumpStored => exact ih h
    | cleared => exact h
    | started =>
      simp only [startsSinceReadNext, startsNext, List.mem_append] at h ⊢
      exact h.imp_left ih

end

/-! ## One step -/

/-- The deadline and what decides about it. -/
def SameSchedule (t t' : Timing) : Prop :=
  t'.iterationPeriod = t.iterationPeriod ∧ t'.scheduleInitialized = t.scheduleInitialized ∧
    t'.nextIteration = t.nextIteration

/-- What a step does to the schedule. -/
inductive ScheduleStep (m m' : Machine) : Option BumpEvent → Prop
  | quiet : SameSchedule m.timing m'.timing → (∀ now, m'.loop = .sampled now → m.loop = .sampled now) →
      (∀ i now, m'.ops i = .bump now → m.ops i = .bump now) → ScheduleStep m m' none
  | cleared : m'.timing.scheduleInitialized = false → m'.loop = m.loop →
      (∀ i now, m'.ops i = .bump now → m.ops i = .bump now) → ScheduleStep m m' (some .cleared)
  | read (i : OpId) (now : UInt64) : m' = m.goto i (.bump now) → ScheduleStep m m' (some (.bumpRead i now))
  | stored (i : OpId) (now : UInt64) : m.ops i = .bump now → m'.timing = bumpLocked m.timing now →
      m'.loop = m.loop → (∀ j r, m'.ops j = .bump r → m.ops j = .bump r) →
      ScheduleStep m m' (some (.bumpStored i now))
  | sampled (now : UInt64) : m' = { m with loop := .sampled now } → ScheduleStep m m' (some (.sampled now))
  | started (now skipped : UInt64) : m.loop = .sampled now → (∀ r, m'.loop ≠ .sampled r) → m'.ops = m.ops →
      m'.timing.iterationPeriod = m.timing.iterationPeriod → m'.timing.scheduleInitialized = true →
      (0 < m.timing.iterationPeriod → now ≤ m'.timing.nextIteration) →
      ScheduleStep m m' (some (.started now (deadlineAt m.timing now) m.timing.iterationPeriod skipped))

variable {m m' : Machine}

theorem goto_bump {i : OpId} {pc : OpPc} (hpc : ∀ now, pc ≠ .bump now) (j : OpId) (now : UInt64)
    (h : Function.update m.ops i pc j = .bump now) : m.ops j = .bump now := by
  rw [Function.update_apply] at h
  split at h
  · exact absurd h (hpc now)
  · exact h

theorem stepOp_scheduleStep {i : OpId} {ok : Bool} (h : stepOp m i ok = some m') :
    ScheduleStep m m' (bumpEvent m (some (.step i ok))) := by
  unfold stepOp at h
  split at h <;> rename_i hpc <;> simp only [bumpEvent, hpc]
  case h_1 =>
    cases h
    exact .quiet ⟨rfl, rfl, rfl⟩ (fun _ => id) (goto_bump nofun)
  case h_2 | h_5 =>
    cases h
    exact .cleared rfl rfl (goto_bump nofun)
  case h_3 now =>
    cases h
    exact .stored i now hpc rfl rfl (goto_bump nofun)
  case h_4 =>
    cases h
    refine .quiet ⟨rfl, rfl, rfl⟩ (fun _ => id) (goto_bump ?_)
    intro now hnow
    split at hnow <;> cases hnow
  case h_6 r =>
    cases h
    refine .quiet ⟨rfl, rfl, rfl⟩ (fun _ => id) (goto_bump ?_)
    cases r <;> nofun
  case h_7 r =>
    cases h
    refine .quiet ⟨rfl, rfl, rfl⟩ (fun _ => id) (goto_bump ?_)
    intro now hnow
    split at hnow
    · cases r <;> cases hnow
    · cases hnow
  case h_8 =>
    cases h
    exact .quiet ⟨rfl, rfl, rfl⟩ (fun _ => id) (goto_bump nofun)
  all_goals cases h

/-- The scheduling section: it waits and leaves the schedule as it was, or the
deadline after it is not before its reading. -/
theorem scheduleLocked_schedule (t : Timing) (now : UInt64) :
    (∃ remaining, (scheduleLocked t now).2 = .wait remaining ∧ SameSchedule t (scheduleLocked t now).1) ∨
      ∃ delta skipped generation, (scheduleLocked t now).2 = .iterate delta skipped generation ∧
        (scheduleLocked t now).1.iterationPeriod = t.iterationPeriod ∧
        (scheduleLocked t now).1.scheduleInitialized = true ∧
        (0 < t.iterationPeriod → now ≤ (scheduleLocked t now).1.nextIteration) := by
  have hm := measure_schedule (initializeSchedule t now) now
  rw [initializeSchedule_period, initializeSchedule_initialized] at hm
  by_cases hp : 0 < t.iterationPeriod
  · rcases UInt64.lt_or_le now (deadlineAt t now) with hw | hdue
    · left
      rw [scheduleLocked_wait hp hw]
      refine ⟨_, rfl, ?_⟩
      -- a schedule initialised here would be due at once
      have hi : t.scheduleInitialized = true := by
        by_contra hi
        simp only [deadlineAt, initializeSchedule, hi, if_false] at hw
        exact absurd (UInt64.lt_iff_toNat_lt.1 hw) (Nat.lt_irrefl _)
      rw [initializeSchedule, if_pos hi]
      exact ⟨rfl, rfl, rfl⟩
    · right
      obtain ⟨t', delta, generation, hrun, hinit, hper, hnext⟩ := scheduleLocked_iterate hp hdue
      obtain ⟨hadv, -⟩ := advance_toNat hp hdue
      have hlt : now.toNat < Grid.next t.iterationPeriod.toNat (deadlineAt t now).toNat now.toNat :=
        Grid.lt_next (UInt64.lt_iff_toNat_lt.1 hp)
      have hword := now.toNat_lt
      rw [hrun]
      refine ⟨_, _, _, rfl, hper, hinit, fun _ => ?_⟩
      rw [hnext, UInt64.le_iff_toNat_le, hadv]
      omega
  · right
    have hnot : ¬ ((initializeSchedule t now).iterationPeriod > 0 ∧ now < (initializeSchedule t now).nextIteration) := by
      rw [initializeSchedule_period]
      exact fun hc => hp hc.1
    simp only [scheduleLocked, if_neg hnot]
    exact ⟨_, _, _, rfl, hm.2.1, hm.1, fun h => absurd h hp⟩

theorem completeLocked_schedule (t : Timing) (generation now endTime : UInt64) :
    SameSchedule t (completeLocked t generation now endTime) := by
  unfold completeLocked
  split <;> exact ⟨rfl, rfl, rfl⟩

theorem step_scheduleStep {a : Option Action} (h : stepOrThrow m a = some m') :
    ScheduleStep m m' (bumpEvent m a) := by
  cases a with
  | none =>
    simp only [stepOrThrow] at h
    split at h <;> cases h
    exact .quiet ⟨rfl, rfl, rfl⟩ (by rintro _ ⟨⟩) fun _ _ => id
  | some a =>
    simp only [stepOrThrow] at h
    cases a with
    | call i r =>
      simp only [step] at h
      split at h <;> cases h
      refine .quiet ⟨rfl, rfl, rfl⟩ (fun _ => id) (goto_bump ?_)
      cases r <;> rintro _ ⟨⟩
    | step i ok => exact stepOp_scheduleStep h
    | readClock i now =>
      simp only [step] at h
      split at h <;> cases h
      exact .read i now rfl
    | store i s =>
      simp only [step] at h
      split at h
      · split at h <;> cases h
        exact .quiet ⟨rfl, rfl, rfl⟩ (fun _ => id) fun _ _ => id
      · cases h
    | nest i =>
      simp only [step] at h
      split at h <;> cases h
      exact .quiet ⟨rfl, rfl, rfl⟩ (fun _ => id) (goto_bump (by rintro _ ⟨⟩))
    | onLoop =>
      simp only [step] at h
      split at h
      · split at h <;> cases h
        · exact .quiet ⟨rfl, rfl, rfl⟩ (fun _ => id) fun _ _ => id
        · exact .quiet ⟨rfl, rfl, rfl⟩ (by rintro _ ⟨⟩) fun _ _ => id
      · cases h
    | sample now =>
      simp only [step] at h
      split at h <;> cases h
      exact .sampled now rfl
    | schedule =>
      simp only [step] at h
      split at h
      · rename_i now hloop
        rcases scheduleLocked_schedule m.timing now with ⟨remaining, hrun, hsame⟩ |
          ⟨delta, skipped, generation, hrun, hper, hinit, hnext⟩
        · have hnone : bumpEvent m (some .schedule) = none := by simp only [bumpEvent, hloop, hrun]
          rw [hnone]
          split at h <;> rename_i hs <;> rw [hs] at hrun hsame <;> cases hrun
          cases h
          refine .quiet hsame (fun r hr => ?_) fun _ _ => id
          dsimp only at hr
          split at hr <;> cases hr
        · have hsome : bumpEvent m (some .schedule) =
              some (.started now (deadlineAt m.timing now) m.timing.iterationPeriod skipped) := by
            simp only [bumpEvent, hloop, hrun]
          rw [hsome]
          split at h <;> rename_i hs <;> rw [hs] at hrun hper hinit hnext <;> cases hrun
          cases h
          exact .started now skipped hloop (by rintro _ ⟨⟩) rfl hper hinit hnext
      · cases h
    | woken =>
      simp only [step] at h
      split at h
      · split at h <;> cases h
        exact .quiet ⟨rfl, rfl, rfl⟩ (by rintro _ ⟨⟩) fun _ _ => id
      · cases h
    | timeout =>
      simp only [step] at h
      split at h <;> cases h
      exact .quiet ⟨rfl, rfl, rfl⟩ (by rintro _ ⟨⟩) fun _ _ => id
    | complete endTime =>
      simp only [step] at h
      split at h <;> cases h
      exact .quiet (completeLocked_schedule _ _ _ _) (by rintro _ ⟨⟩) fun _ _ => id

/-! ## The order of the readings -/

/-- The iterations of the schedule, with a clock that never goes back. -/
structure Ordered (m : Machine) (l : List BumpEvent) : Prop where
  sampled : ∀ now, m.loop = .sampled now → now ∈ clockReadings l ∧ ∀ s ∈ starts l, s ≤ now
  started : ∀ s ∈ starts l, s ∈ clockReadings l
  sorted : (starts l).Pairwise (· ≤ ·)
  /-- What started before a pending `Bump` read the clock is not later. -/
  read : ∀ i now, m.ops i = .bump now → ∀ s ∈ starts l, s ∈ startsSinceRead i l ∨ s ≤ now
  initialized : m.timing.scheduleInitialized = false → starts l = []

variable {l : List BumpEvent} {e : Option BumpEvent}

theorem clockReadings_mono {now : UInt64} (h : now ∈ clockReadings l) (x : BumpEvent) :
    now ∈ clockReadings (l ++ [x]) := by
  simp only [clockReadings, List.filterMap_append, List.mem_append] at h ⊢
  exact .inl h

/-- A new reading is not before any start. -/
theorem Ordered.starts_le (h : Ordered m l) {x : BumpEvent} {now : UInt64}
    (hx : clockReadings [x] = [now]) (hclock : (clockReadings (l ++ [x])).Pairwise (· ≤ ·)) : ∀ s ∈ starts l, s ≤ now := by
  intro s hs
  have hsplit : clockReadings (l ++ [x]) = clockReadings l ++ clockReadings [x] := List.filterMap_append
  rw [hsplit, hx, List.pairwise_append] at hclock
  exact hclock.2.2 s (h.started s hs) now (List.mem_singleton_self now)

theorem Ordered.step (h : Ordered m l) (hs : ScheduleStep m m' e)
    (hclock : (clockReadings (l ++ e.toList)).Pairwise (· ≤ ·)) : Ordered m' (l ++ e.toList) := by
  cases hs with
  | quiet hsame hloop hops =>
    rw [Option.toList_none, List.append_nil]
    refine ⟨fun now hl => h.sampled now (hloop now hl), h.started, h.sorted, fun i now hi => h.read i now (hops i now hi),
      fun hi => h.initialized ?_⟩
    rw [← hsame.2.1]
    exact hi
  | cleared hinit hloop hops =>
    rw [Option.toList_some]
    have hnil : starts (l ++ [.cleared]) = [] := starts_append
    refine ⟨fun now hl => ⟨clockReadings_mono (h.sampled now (hloop ▸ hl)).1 _, ?_⟩, ?_, ?_, ?_, fun _ => hnil⟩ <;>
      rw [hnil]
    · nofun
    · nofun
    · exact .nil
    · intro i now _ s hs
      cases hs
  | read i now hm =>
    subst hm
    rw [Option.toList_some] at hclock ⊢
    have hle := h.starts_le rfl hclock
    have hstarts : starts (l ++ [.bumpRead i now]) = starts l := starts_append
    refine ⟨fun r hl => ?_, ?_, ?_, fun j r hj => ?_, fun hi => ?_⟩ <;> rw [hstarts]
    · exact ⟨clockReadings_mono (h.sampled r hl).1 _, (h.sampled r hl).2⟩
    · exact fun s hs => clockReadings_mono (h.started s hs) _
    · exact h.sorted
    · intro s hs
      by_cases hji : j = i
      · subst hji
        simp only [Machine.goto, Function.update_self, OpPc.bump.injEq] at hj
        rw [← hj]
        exact .inr (hle s hs)
      · simp only [Machine.goto, Function.update_of_ne hji] at hj
        rw [startsSinceRead_append]
        simp only [startsSinceReadNext, if_neg (Ne.symm hji)]
        exact h.read j r hj s hs
    · exact h.initialized hi
  | stored i now hpc htiming hloop hops =>
    rw [Option.toList_some]
    have hstarts : starts (l ++ [.bumpStored i now]) = starts l := starts_append
    refine ⟨fun r hl => ?_, ?_, ?_, fun j r hj => ?_, fun hi => ?_⟩ <;> try rw [hstarts]
    · exact ⟨clockReadings_mono (h.sampled r (hloop ▸ hl)).1 _, (h.sampled r (hloop ▸ hl)).2⟩
    · exact fun s hs => clockReadings_mono (h.started s hs) _
    · exact h.sorted
    · rw [startsSinceRead_append]
      exact h.read j r (hops j r hj)
    · rw [htiming] at hi
      cases hi
  | sampled now hm =>
    subst hm
    rw [Option.toList_some] at hclock ⊢
    have hle := h.starts_le rfl hclock
    have hstarts : starts (l ++ [.sampled now]) = starts l := starts_append
    refine ⟨fun r hl => ?_, ?_, ?_, fun j r hj => ?_, fun hi => ?_⟩ <;> rw [hstarts]
    · cases hl
      exact ⟨by simp [clockReadings], hle⟩
    · exact fun s hs => clockReadings_mono (h.started s hs) _
    · exact h.sorted
    · rw [startsSinceRead_append]
      exact h.read j r hj
    · exact h.initialized hi
  | started now skipped hloop hloop' hops hper hinit hnext =>
    rw [Option.toList_some]
    obtain ⟨hmem, hle⟩ := h.sampled now hloop
    have hstarts : starts (l ++ [.started now (deadlineAt m.timing now) m.timing.iterationPeriod skipped]) =
        starts l ++ [now] := starts_append
    refine ⟨fun r hl => absurd hl (hloop' r), ?_, ?_, fun j r hj => ?_, fun hi => ?_⟩
    · rw [hstarts]
      intro s hs
      rcases List.mem_append.1 hs with hs | hs
      · exact clockReadings_mono (h.started s hs) _
      · rw [List.mem_singleton.1 hs]
        exact clockReadings_mono hmem _
    · rw [hstarts, List.pairwise_append]
      refine ⟨h.sorted, List.pairwise_singleton _ _, fun s hs r hr => ?_⟩
      rw [List.mem_singleton.1 hr]
      exact hle s hs
    · rw [hops] at hj
      rw [hstarts, startsSinceRead_append]
      simp only [startsSinceReadNext, startsNext, List.mem_append]
      rintro s (hs | hs)
      · exact (h.read j r hj s hs).imp_left .inl
      · exact .inl (.inr hs)
    · rw [hinit] at hi
      cases hi

/-! ## The deadline -/

/-- `p` holds of the reading that `pc` is about to store. -/
def OpPc.StoreMeets (p : UInt64 → Prop) : OpPc → Prop
  | .bump now => p now
  | _ => True

instance decidableStoreMeets (p : UInt64 → Prop) [DecidablePred p] : ∀ pc, Decidable (OpPc.StoreMeets p pc)
  | .bump now => inferInstanceAs (Decidable (p now))
  | .idle | .storeFlag | .updatePeriod _ | .readClock | .readState | .resetSchedule _ | .resetSignal _ | .base _
  | .signal _ | .returned _ | .threw => inferInstanceAs (Decidable True)

/-- When a `Bump` stores, no iteration of the schedule that came after it read
the clock started at a later reading. -/
def NotOvertaken (x : Machine × List BumpEvent) : Option Action → Prop
  | some (.step i _) => (x.1.ops i).StoreMeets fun now => ∀ s ∈ startsSinceRead i x.2, s ≤ now
  | _ => True

instance (x : Machine × List BumpEvent) : ∀ a, Decidable (NotOvertaken x a)
  -- over the list of starts, not over all readings
  | some (.step i _) => @decidableStoreMeets _ (fun now => List.decidableBAll (· ≤ now) _) (x.1.ops i)
  | none | some (.call _ _) | some (.readClock _ _) | some (.store _ _) | some (.nest _) | some .onLoop
  | some (.sample _) | some .schedule | some .woken | some .timeout | some (.complete _) => inferInstanceAs (Decidable True)

/-- The deadline is not before an iteration of its schedule. -/
def Ahead (m : Machine) (l : List BumpEvent) : Prop :=
  0 < m.timing.iterationPeriod → m.timing.scheduleInitialized = true → ∀ s ∈ starts l, s ≤ m.timing.nextIteration

theorem Ordered.le_store (h : Ordered m l) {i : OpId} {now : UInt64} (hpc : m.ops i = .bump now)
    (hc : ∀ s ∈ startsSinceRead i l, s ≤ now) : ∀ s ∈ starts l, s ≤ now := fun s hs =>
  (h.read i now hpc s hs).elim (hc s) id

theorem Ahead.step (h : Ahead m l) (ho : Ordered m l) (hs : ScheduleStep m m' e)
    (hc : ∀ i now, e = some (.bumpStored i now) → ∀ s ∈ startsSinceRead i l, s ≤ now) : Ahead m' (l ++ e.toList) := by
  cases hs with
  | quiet hsame hloop hops =>
    obtain ⟨hper, hinit, hnext⟩ := hsame
    rw [Option.toList_none, List.append_nil, Ahead, hper, hinit, hnext]
    exact h
  | cleared hinit hloop hops =>
    intro _ hi
    rw [hinit] at hi
    cases hi
  | read i now hm =>
    subst hm
    rw [Option.toList_some, Ahead, starts_append]
    exact h
  | stored i now hpc htiming hloop hops =>
    rw [Option.toList_some, Ahead, starts_append, htiming]
    exact fun _ _ => ho.le_store hpc (hc i now rfl)
  | sampled now hm =>
    subst hm
    rw [Option.toList_some, Ahead, starts_append]
    exact h
  | started now skipped hloop hloop' hops hper hinit hnext =>
    rw [Option.toList_some, Ahead, starts_append, hper]
    intro hP _ s hs
    rcases List.mem_append.1 hs with hs | hs
    · exact UInt64.le_trans ((ho.sampled now hloop).2 s hs) (hnext hP)
    · rw [List.mem_singleton.1 hs]
      exact hnext hP

/-- No slot that an iteration counts as skipped is at or before the start of an
earlier iteration of its schedule. -/
def CountsNoOldSlot (l : List BumpEvent) : Prop :=
  ∀ l₁ start deadline period skipped l₂, l = l₁ ++ .started start deadline period skipped :: l₂ → 0 < period →
    ∀ k, 1 ≤ k → k ≤ skipped.toNat → ∀ s ∈ starts l₁, s.toNat < deadline.toNat + k * period.toNat

/-- Every deadline that a `Bump` stored is not before the start of the latest
iteration of the schedule. -/
def NeverRewinds (l : List BumpEvent) : Prop :=
  ∀ l₁ i now l₂, l = l₁ ++ .bumpStored i now :: l₂ → ∀ s, (starts l₁).getLast? = some s → s ≤ now

/-- A `Bump` that stored was rewinding exactly when it was overtaken. -/
def RewindsWhenOvertaken (l : List BumpEvent) : Prop :=
  ∀ l₁ i now l₂, l = l₁ ++ .bumpStored i now :: l₂ →
    ((∀ s, (starts l₁).getLast? = some s → s ≤ now) ↔ ∀ s ∈ startsSinceRead i l₁, s ≤ now)

/-- The latest start bounds the others. -/
theorem le_of_latest_le {w : List UInt64} (hsorted : w.Pairwise (· ≤ ·)) {now : UInt64}
    (h : ∀ s, w.getLast? = some s → s ≤ now) : ∀ s ∈ w, s ≤ now := by
  intro s hs
  rcases List.eq_nil_or_concat w with rfl | ⟨w', last, rfl⟩
  · cases hs
  · rw [List.concat_eq_append] at hs hsorted h
    have hlast := h last (by simp)
    rcases List.mem_append.1 hs with hs | hs
    · exact UInt64.le_trans ((List.pairwise_append.1 hsorted).2.2 s hs last (List.mem_singleton_self _)) hlast
    · rw [List.mem_singleton.1 hs]
      exact hlast

theorem RewindsWhenOvertaken.step (h : RewindsWhenOvertaken l) (ho : Ordered m l) (hs : ScheduleStep m m' e) :
    RewindsWhenOvertaken (l ++ e.toList) := by
  intro l₁ i now l₂ hl
  rcases System.split_append hl with ⟨l₃, hl, -⟩ | ⟨he, rfl, -⟩
  · exact h l₁ i now l₃ hl
  · subst he
    cases hs with
    | stored _ _ hpc _ _ _ =>
      constructor
      · intro hlatest s hs
        exact le_of_latest_le ho.sorted hlatest s (startsSinceRead_subset hs)
      · intro hc s hs
        exact ho.le_store hpc hc s (List.mem_of_getLast? hs)

theorem NeverRewinds.step (h : NeverRewinds l) (ho : Ordered m l) (hs : ScheduleStep m m' e)
    (hc : ∀ i now, e = some (.bumpStored i now) → ∀ s ∈ startsSinceRead i l, s ≤ now) : NeverRewinds (l ++ e.toList) := by
  intro l₁ i now l₂ hl
  rcases System.split_append hl with ⟨l₃, hl, -⟩ | ⟨he, rfl, -⟩
  · exact h l₁ i now l₃ hl
  · subst he
    cases hs with
    | stored _ _ hpc _ _ _ => exact fun s hs => ho.le_store hpc (hc i now rfl) s (List.mem_of_getLast? hs)

theorem CountsNoOldSlot.step (h : CountsNoOldSlot l) (ho : Ordered m l) (ha : Ahead m l)
    (hs : ScheduleStep m m' e) : CountsNoOldSlot (l ++ e.toList) := by
  intro l₁ start deadline period skipped l₂ hl hP k hk hkn s hmem
  rcases System.split_append hl with ⟨l₃, hl, -⟩ | ⟨he, rfl, -⟩
  · exact h l₁ start deadline period skipped l₃ hl hP k hk hkn s hmem
  · subst he
    cases hs with
    | started _ _ hloop _ _ _ _ _ =>
      -- iterations of the schedule: it was initialised, so the deadline found is the stored one
      have hi : m.timing.scheduleInitialized = true := by
        by_contra hi
        rw [Bool.not_eq_true] at hi
        rw [ho.initialized hi] at hmem
        cases hmem
      have hle : s ≤ deadlineAt m.timing start := by
        rw [deadlineAt, initializeSchedule, if_pos hi]
        exact ha hP hi s hmem
      have hle' := UInt64.le_iff_toNat_le.1 hle
      have hP' := UInt64.lt_iff_toNat_lt.1 hP
      have hkP : 1 * 1 ≤ k * m.timing.iterationPeriod.toNat := Nat.mul_le_mul hk hP'
      omega

/-! ## Runs -/

theorem ordered_start (t : Timing) (s : ESPressio.Thread.ThreadState) (signal : Option Bool) :
    Ordered (.start t s signal) [] where
  sampled := nofun
  started := nofun
  sorted := .nil
  read := nofun
  initialized _ := rfl

theorem pairwise_of_append {l l' : List BumpEvent} (h : (clockReadings (l ++ l')).Pairwise (· ≤ ·)) :
    (clockReadings l).Pairwise (· ≤ ·) := by
  rw [clockReadings, List.filterMap_append, List.pairwise_append] at h
  exact h.1

/-- What a run keeps while the clock does not go back. -/
theorem ordered_reachable {x : Machine × List BumpEvent} (h : bumped.Reachable x)
    (hclock : (clockReadings x.2).Pairwise (· ≤ ·)) : Ordered x.1 x.2 ∧ RewindsWhenOvertaken x.2 := by
  have hinv : (clockReadings x.2).Pairwise (· ≤ ·) → Ordered x.1 x.2 ∧ RewindsWhenOvertaken x.2 := by
    refine h.invariant (I := fun x => (clockReadings x.2).Pairwise (· ≤ ·) →
      Ordered x.1 x.2 ∧ RewindsWhenOvertaken x.2) ?_ ?_
    · rintro ⟨m, l⟩ ⟨⟨t, s, signal, hm⟩, hl⟩ _
      cases hm
      cases hl
      refine ⟨ordered_start t s signal, ?_⟩
      intro l₁ i now l₂ hl
      simp at hl
    · intro x a y hI _ hs hc
      obtain ⟨hst, hl⟩ := System.logged_step.1 hs
      rw [hl] at hc ⊢
      obtain ⟨ho, hr⟩ := hI (pairwise_of_append hc)
      have hstep := step_scheduleStep hst
      exact ⟨ho.step hstep hc, hr.step ho hstep⟩
  exact hinv hclock

theorem notOvertaken_stored {x : Machine × List BumpEvent} {a : Option Action} (hc : NotOvertaken x a) :
    ∀ i now, bumpEvent x.1 a = some (.bumpStored i now) → ∀ s ∈ startsSinceRead i x.2, s ≤ now := by
  intro i now he
  cases a with
  | none => cases he
  | some a =>
    cases a with
    | step j ok =>
      simp only [bumpEvent] at he
      split at he <;> rename_i hpc <;> cases he
      simpa only [NotOvertaken, hpc, OpPc.StoreMeets] using hc
    | schedule =>
      simp only [bumpEvent] at he
      split at he
      · split at he <;> cases he
      · cases he
    | _ => cases he

/-- With a clock that never goes back: in every run, a `Bump` stores a deadline
before the start of the latest iteration of the schedule exactly when an
iteration that came after it read the clock started later than its reading. In
runs where no `Bump` is overtaken so, none rewinds the schedule, and no
iteration counts a slot at or before the start of an earlier one. -/
theorem bump_never_rewinds {x : Machine × List BumpEvent} (h : bumped.Reachable x)
    (hclock : (clockReadings x.2).Pairwise (· ≤ ·)) : RewindsWhenOvertaken x.2 ∧
      (bumped.ReachableWhen NotOvertaken x → NeverRewinds x.2 ∧ CountsNoOldSlot x.2) := by
  refine ⟨(ordered_reachable h hclock).2, fun hx => ?_⟩
  have hinv : (clockReadings x.2).Pairwise (· ≤ ·) →
      Ahead x.1 x.2 ∧ NeverRewinds x.2 ∧ CountsNoOldSlot x.2 := by
    refine hx.invariant_with (J := fun x => (clockReadings x.2).Pairwise (· ≤ ·) → Ordered x.1 x.2)
      (I := fun x => (clockReadings x.2).Pairwise (· ≤ ·) → Ahead x.1 x.2 ∧ NeverRewinds x.2 ∧ CountsNoOldSlot x.2)
      (fun x hr hc => (ordered_reachable hr.reachable hc).1) ?_ ?_
    · rintro ⟨m, l⟩ ⟨-, hl⟩ _
      cases hl
      refine ⟨nofun, ?_, ?_⟩
      · intro l₁ i now l₂ hl
        simp at hl
      · intro l₁ start deadline period skipped l₂ hl
        simp at hl
    · intro x a y hJ _ hI hcond hs hc
      obtain ⟨hst, hl⟩ := System.logged_step.1 hs
      rw [hl] at hc ⊢
      have hprev := pairwise_of_append hc
      obtain ⟨ha, hn, hcount⟩ := hI hprev
      have ho := hJ hprev
      have hstep := step_scheduleStep hst
      have hstored := notOvertaken_stored hcond
      exact ⟨ha.step ho hstep hstored, hn.step ho hstep hstored, hcount.step ho ha hstep⟩
  exact (hinv hclock).2

/-- A running thread with the period 10. -/
def periodTen : Machine := .start { iterationPeriod := 10 } .running (some false)

/-- One iteration at `now`, after `OnLoop` was called at the same reading. -/
def iterationAt (now : UInt64) : List (Option Action) :=
  [some .onLoop, some (.sample now), some .schedule, some (.complete now)]

/-- A `Bump` reads 5, an iteration starts at 25, and the `Bump` stores 5. -/
def overtakenRun : List (Option Action) :=
  iterationAt 0 ++ [some (.call 1 .bump), some (.readClock 1 5)] ++ iterationAt 25 ++ [some (.step 1 true)] ++
    iterationAt 26

/-- At 26 an iteration runs that is not due until 30, and counts 15 and 25 as
skipped: 25 was executed. -/
theorem late_bump_rewinds : ∃ x, bumped.Reachable x ∧ (clockReadings x.2).Pairwise (· ≤ ·) ∧
    ¬ NeverRewinds x.2 ∧ ¬ CountsNoOldSlot x.2 := by
  have hrun : (bumped.replay (periodTen, []) overtakenRun).map (fun x => x.2) =
      some [.sampled 0, .started 0 0 10 0, .bumpRead 1 5, .sampled 25, .started 25 10 10 1, .bumpStored 1 5,
        .sampled 26, .started 26 5 10 2] := by
    decide
  obtain ⟨x, hs, hl⟩ := Option.map_eq_some_iff.1 hrun
  have hinit : bumped.init (periodTen, []) := ⟨⟨_, _, _, rfl⟩, rfl⟩
  refine ⟨x, System.reachable_of_replay hinit hs, by rw [hl]; decide, ?_, ?_⟩ <;> rw [hl]
  · intro h
    exact absurd (h [.sampled 0, .started 0 0 10 0, .bumpRead 1 5, .sampled 25, .started 25 10 10 1] 1 5 _ rfl 25 rfl)
      (by decide)
  · intro h
    exact absurd (h [.sampled 0, .started 0 0 10 0, .bumpRead 1 5, .sampled 25, .started 25 10 10 1, .bumpStored 1 5,
      .sampled 26] 26 5 10 2 [] rfl (by decide) 2 (by decide) (by decide) 25 (by decide)) (by decide)

/-- The same with the store before the iteration. -/
def promptRun : List (Option Action) :=
  iterationAt 0 ++ [some (.call 1 .bump), some (.readClock 1 5), some (.step 1 true)] ++ iterationAt 25

theorem prompt_bump : ∃ x, bumped.ReachableWhen NotOvertaken x ∧
    x.2 = [.sampled 0, .started 0 0 10 0, .bumpRead 1 5, .bumpStored 1 5, .sampled 25, .started 25 5 10 2] ∧
    RewindsWhenOvertaken x.2 ∧ NeverRewinds x.2 ∧ CountsNoOldSlot x.2 := by
  have hrun : (bumped.replayWhen NotOvertaken (periodTen, []) promptRun).map (fun x => x.2) =
      some [.sampled 0, .started 0 0 10 0, .bumpRead 1 5, .bumpStored 1 5, .sampled 25, .started 25 5 10 2] := by
    decide +kernel
  obtain ⟨x, hs, hl⟩ := Option.map_eq_some_iff.1 hrun
  have hinit : bumped.init (periodTen, []) := ⟨⟨_, _, _, rfl⟩, rfl⟩
  have hr := System.reachableWhen_of_replayWhen hinit hs
  have hclock : (clockReadings x.2).Pairwise (· ≤ ·) := by
    rw [hl]
    decide
  obtain ⟨hiff, hprompt⟩ := bump_never_rewinds hr.reachable hclock
  exact ⟨x, hr, hl, hiff, hprompt hr⟩

end ESPressio.Precision.Wake
