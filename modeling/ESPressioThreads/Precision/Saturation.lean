import ESPressioThreads.Lib.Checked
import ESPressioThreads.Precision.Runs
import ESPressioThreads.Precision.Schedule
/-!
# The saturating deadline

The scheduling section once more, in checked arithmetic. It gives what the
section computes with machine words at every state and every reading, so
nothing in the section wraps, and the new deadline is the integer formula of
`Grid.next`, clamped once.
-/

namespace ESPressio.Precision

open Transition

/-! ## The section in checked arithmetic -/

def addSaturatedChecked (left right : UInt64) : Option UInt64 := do
  let room ← Checked.sub maximum left
  if right > room then some maximum else Checked.add left right

def advanceChecked (period now next : UInt64) : Option (UInt64 × UInt64) := do
  let behind ← Checked.sub now next
  let elapsedPeriods ← Checked.div behind period
  let periodsToAdvance ← (if elapsedPeriods = maximum then some elapsedPeriods else Checked.add elapsedPeriods 1)
  let most ← Checked.div maximum period
  let advance ← (if periodsToAdvance > most then some maximum else Checked.mul periodsToAdvance period)
  let deadline ← addSaturatedChecked next advance
  some (deadline, elapsedPeriods)

def measureChecked (t : Timing) (now : UInt64) : Option (Timing × UInt64) :=
  if t.hasPreviousIteration then do
    let baseline := match t.deltaMode with
      | .StartToStart => t.previousStart
      | .EndToStart => t.previousEnd
    let delta ← (if now ≥ baseline then Checked.sub now baseline else some 0)
    let t ← (if now ≥ t.previousStart then (Checked.sub now t.previousStart).map (recordSampleLocked t) else some t)
    some (t, delta)
  else some (t, 0)

def scheduleLockedChecked (t : Timing) (now : UInt64) : Option (Timing × Scheduled) := do
  let t := initializeSchedule t now
  if t.iterationPeriod > 0 ∧ now < t.nextIteration then
    let remaining ← Checked.sub t.nextIteration now
    some (t, .wait remaining)
  else
    let (t, delta) ← measureChecked t now
    let (next, skipped) ←
      (if t.iterationPeriod > 0 then advanceChecked t.iterationPeriod now t.nextIteration
      else some (t.nextIteration, 0))
    some ({ t with nextIteration := next, activeIterationStart := now }, .iterate delta skipped t.measurementGeneration)

theorem addSaturatedChecked_eq (left right : UInt64) :
    addSaturatedChecked left right = some (addSaturated left right) := by
  have hmax := UInt64.le_iff_toNat_le.2 (le_maximum left)
  have hroom : (maximum - left).toNat = 2 ^ 64 - 1 - left.toNat := by
    rw [UInt64.toNat_sub_of_le _ _ hmax, maximum_toNat]
  have hl := left.toNat_lt
  rw [addSaturatedChecked, addSaturated, Checked.sub_bind hmax]
  by_cases h : right > maximum - left
  · rw [if_pos h, if_pos h]
  · rw [if_neg h, if_neg h]
    rw [gt_iff_lt, UInt64.lt_iff_toNat_lt, hroom] at h
    exact Checked.add_eq (by omega)

theorem advanceChecked_eq {period now next : UInt64} (hp : 0 < period) (hle : next ≤ now) :
    advanceChecked period now next = some (advance period now next) := by
  have hp' : 0 < period.toNat := UInt64.lt_iff_toNat_lt.1 hp
  simp only [advanceChecked, advance, Checked.sub_eq hle, Checked.div_eq hp, addSaturatedChecked_eq,
    Option.bind_eq_bind, Option.bind_some]
  generalize (now - next) / period = elapsed
  have hadd : (if elapsed = maximum then some elapsed else Checked.add elapsed 1) =
      some (if elapsed = maximum then elapsed else elapsed + 1) := by
    split
    · rfl
    · rename_i h
      have hle := le_maximum elapsed
      have hne : elapsed.toNat ≠ maximum.toNat := fun he => h (UInt64.toNat_inj.1 he)
      rw [maximum_toNat] at hle hne
      exact Checked.add_eq (by rw [UInt64.toNat_one]; omega)
  rw [hadd, Option.bind_some]
  generalize (if elapsed = maximum then elapsed else elapsed + 1) = periods
  have hmul : (if periods > maximum / period then some maximum else Checked.mul periods period) =
      some (if periods > maximum / period then maximum else periods * period) := by
    split
    · rfl
    · rename_i h
      rw [gt_iff_lt, UInt64.lt_iff_toNat_lt, UInt64.toNat_div, maximum_toNat, Nat.not_lt,
        Nat.le_div_iff_mul_le hp'] at h
      exact Checked.mul_eq (by omega)
  rw [hmul]
  rfl

theorem measureChecked_eq (t : Timing) (now : UInt64) : measureChecked t now = some (measure t now) := by
  unfold measureChecked measure
  split
  · -- both subtractions stand behind their own comparison
    have hdelta : ∀ b : UInt64, (if now ≥ b then Checked.sub now b else some 0) =
        some (if now ≥ b then now - b else 0) := by
      intro b
      split
      · exact Checked.sub_eq ‹_›
      · rfl
    have hsample : (if now ≥ t.previousStart then (Checked.sub now t.previousStart).map (recordSampleLocked t)
        else some t) = some (if now ≥ t.previousStart then recordSampleLocked t (now - t.previousStart) else t) := by
      split
      · rw [Checked.sub_eq ‹_›]
        rfl
      · rfl
    cases t.deltaMode <;> simp [hdelta, hsample]
  · rfl

/-- Nothing in the scheduling section wraps, whatever the state and the
reading. -/
theorem scheduleLockedChecked_eq (t : Timing) (now : UInt64) :
    scheduleLockedChecked t now = some (scheduleLocked t now) := by
  simp only [scheduleLockedChecked, scheduleLocked]
  generalize initializeSchedule t now = t
  split
  · rename_i h
    have hle : now ≤ t.nextIteration := UInt64.le_of_lt h.2
    rw [Checked.sub_eq hle]
    rfl
  · rename_i h
    obtain ⟨-, hperiod, hnext⟩ := measure_schedule t now
    simp only [measureChecked_eq, Option.bind_eq_bind, Option.bind_some, hperiod, hnext]
    split
    · rename_i hp
      have hle : t.nextIteration ≤ now := UInt64.not_lt.1 fun hlt => h ⟨hp, hlt⟩
      rw [advanceChecked_eq hp hle]
      rfl
    · rfl

/-! ## The deadline of an iteration -/

/-- An iteration with the period `P` found a deadline that was due and stored
the first grid point after its reading, or the largest word. -/
structure Advanced (P : UInt64) (it : Iteration) : Prop where
  due : it.deadline ≤ it.reading
  next_eq : it.nextDeadline.toNat = min (2 ^ 64 - 1)
    (it.deadline.toNat + ((it.reading.toNat - it.deadline.toNat) / P.toNat + 1) * P.toNat)
  skipped_eq : it.skipped.toNat = (it.reading.toNat - it.deadline.toNat) / P.toNat
  later : it.reading < it.nextDeadline ∨ it.nextDeadline = maximum

theorem advanced {P now deadline : UInt64} (hP : 0 < P) (hdue : deadline ≤ now) :
    Advanced P ⟨now, deadline, (advance P now deadline).1, (advance P now deadline).2⟩ := by
  obtain ⟨hnext, hskip⟩ := advance_toNat hP hdue
  have hlt : now.toNat < Grid.next P.toNat deadline.toNat now.toNat :=
    Grid.lt_next (UInt64.lt_iff_toNat_lt.1 hP)
  have hword := now.toNat_lt
  refine ⟨hdue, by rw [hnext, Nat.min_comm]; rfl, hskip, ?_⟩
  dsimp only
  rcases Nat.lt_or_ge now.toNat (2 ^ 64 - 1) with hn | hn
  · left
    rw [UInt64.lt_iff_toNat_lt, hnext]
    omega
  · -- the reading is the largest word, and the deadline after it saturates
    right
    rw [← UInt64.toNat_inj, hnext, maximum_toNat]
    omega

/-- A reading at or past the deadline runs an iteration. -/
theorem scheduleLocked_advanced {t : Timing} {now : UInt64} (hP : 0 < t.iterationPeriod)
    (hdue : deadlineAt t now ≤ now) :
    ∃ t' delta skipped generation, scheduleLocked t now = (t', .iterate delta skipped generation) ∧
      Advanced t.iterationPeriod ⟨now, deadlineAt t now, t'.nextIteration, skipped⟩ := by
  obtain ⟨t', delta, generation, hrun, -, -, hnext⟩ := scheduleLocked_iterate hP hdue
  exact ⟨t', delta, _, generation, hrun, hnext ▸ advanced hP hdue⟩

/-! ## Runs -/

/-- The iteration a step starts, with the period it ran under. -/
def iterated (m : Machine) : RunAction → Option (UInt64 × Iteration)
  | .act .schedule =>
    match m.loop with
    | .sampled now =>
      match scheduleLocked m.timing now with
      | (t, .iterate _ skipped _) =>
        some (m.timing.iterationPeriod, ⟨now, deadlineAt m.timing now, t.nextIteration, skipped⟩)
      | (_, .wait _) => none
    | _ => none
  | _ => none

theorem iterated_advanced {m : Machine} {a : RunAction} {P : UInt64} {it : Iteration}
    (h : iterated m a = some (P, it)) (hP : 0 < P) : Advanced P it := by
  unfold iterated at h
  split at h
  · split at h
    · rename_i now _
      -- Before the deadline the section only waits, and logs nothing.
      rcases UInt64.lt_or_le now (deadlineAt m.timing now) with hw | hdue
      · by_cases hper : 0 < m.timing.iterationPeriod
        · rw [scheduleLocked_wait hper hw] at h
          cases h
        · split at h
          · cases h
            exact absurd hP hper
          · cases h
      · split at h
        · rename_i hrun
          cases h
          obtain ⟨t', delta, skipped, generation, hrun', hadv⟩ := scheduleLocked_advanced hP hdue
          rw [hrun'] at hrun
          cases hrun
          exact hadv
        · cases h
    · cases h
  · cases h

/-- Nothing in the scheduling section wraps, at any state and any reading. At a
reading past the deadline it stores the clamped integer formula. And in every
run, an iteration with a positive period found its deadline due. -/
theorem deadline_saturates_exactly :
    (∀ t now, scheduleLockedChecked t now = some (scheduleLocked t now)) ∧
    (∀ (t : Timing) (now : UInt64), 0 < t.iterationPeriod → deadlineAt t now ≤ now →
      ∃ t' delta skipped generation, scheduleLocked t now = (t', .iterate delta skipped generation) ∧
        Advanced t.iterationPeriod ⟨now, deadlineAt t now, t'.nextIteration, skipped⟩) ∧
    ∀ x, (runs.logged iterated).Reachable x → ∀ P it, (P, it) ∈ x.2 → 0 < P → Advanced P it := by
  refine ⟨scheduleLockedChecked_eq, fun t now hP hdue => scheduleLocked_advanced hP hdue, fun x hx => ?_⟩
  refine hx.invariant (I := fun x => ∀ P it, (P, it) ∈ x.2 → 0 < P → Advanced P it) ?_ ?_
  · intro x hi P it hmem
    rw [hi.2] at hmem
    cases hmem
  · intro x a y hI _ hs P it hmem hP
    rw [(System.logged_step.1 hs).2, List.mem_append, Option.mem_toList] at hmem
    rcases hmem with hold | hnew
    · exact hI P it hold hP
    · exact iterated_advanced hnew hP

/-- A period that does not fit a second time: a `Bump` stores the late deadline
4, and the iteration there saturates. -/
def saturatedRun : List RunAction :=
  [.act (.setIterationPeriod 0xfffffffffffffffe), .act .callOnLoop, .act (.bumpRead 4), .act (.bumpStore 0),
    .act (.readClock 5), .act .schedule, .iterateThrows]

theorem saturatedRun_advanced : ∃ x, (runs.logged iterated).Reachable x ∧
    x.2 = [(0xfffffffffffffffe, ⟨5, 4, maximum, 0⟩)] ∧
    (∀ P it, (P, it) ∈ x.2 → 0 < P → Advanced P it) ∧
    Advanced 1 ⟨maximum, 0, maximum, maximum⟩ := by
  have hrun : ((runs.logged iterated).replay (fresh {}, []) saturatedRun).map (fun x => x.2) =
      some [(0xfffffffffffffffe, ⟨5, 4, maximum, 0⟩)] := by
    decide
  obtain ⟨x, hs, hl⟩ := Option.map_eq_some_iff.1 hrun
  have hinit : (runs.logged iterated).init (fresh {}, []) := ⟨rfl, rfl⟩
  have hr := System.reachable_of_replay hinit hs
  refine ⟨x, hr, hl, deadline_saturates_exactly.2.2 x hr, ?_⟩
  obtain ⟨t', delta, skipped, generation, hsched, hadv⟩ :=
    deadline_saturates_exactly.2.1 { iterationPeriod := 1, scheduleInitialized := true } maximum (by decide) (by decide)
  have hnext : t'.nextIteration = maximum ∧ skipped = maximum := by
    have : (scheduleLocked { iterationPeriod := 1, scheduleInitialized := true } maximum).1.nextIteration = maximum ∧
        (scheduleLocked { iterationPeriod := 1, scheduleInitialized := true } maximum).2 =
          .iterate 0 maximum 0 := by decide
    rw [hsched] at this
    obtain ⟨h1, h2⟩ := this
    cases h2
    exact ⟨h1, rfl⟩
  rw [hnext.1, hnext.2] at hadv
  exact hadv

end ESPressio.Precision
