import ESPressioThreads.Lib.Checked
import ESPressioThreads.Precision.Runs
import ESPressioThreads.Precision.Schedule
/-!
# The available time

`GetAvailableIterationTime` reads the start of the active iteration, and takes
the start 0 for no iteration. A clock that starts at 0 gives an iteration that
start, and its available time reads 0 at every clock reading.
-/

namespace ESPressio.Precision

open Transition

/-- `std::numeric_limits<int64_t>::max()`, as a `uint64_t`. -/
def signedMaximum : UInt64 := 0x7fffffffffffffff

/-- `GetAvailableIterationTime`, at the clock reading `now`. -/
def getAvailableIterationTime (t : Timing) (now : UInt64) : Int64 :=
  if t.desiredIterationPeriod = 0 ∨ t.activeIterationStart = 0 then 0
  else
    let deadline := addSaturated t.activeIterationStart t.desiredIterationPeriod
    if deadline ≥ now then
      let remaining := deadline - now
      if remaining > signedMaximum then Int64.maxValue else remaining.toInt64
    else
      let overrun := now - deadline
      if overrun > signedMaximum then Int64.minValue else -overrun.toInt64

/-- The same in checked arithmetic. -/
def getAvailableIterationTimeChecked (t : Timing) (now : UInt64) : Option Int64 :=
  if t.desiredIterationPeriod = 0 ∨ t.activeIterationStart = 0 then some 0
  else
    let deadline := addSaturated t.activeIterationStart t.desiredIterationPeriod
    if deadline ≥ now then do
      let remaining ← Checked.sub deadline now
      if remaining > signedMaximum then some Int64.maxValue else Checked.signed remaining
    else do
      let overrun ← Checked.sub now deadline
      if overrun > signedMaximum then some Int64.minValue else (Checked.signed overrun).bind Checked.neg

/-- The nearest integer that an `int64_t` holds. -/
def clamp (x : Int) : Int := max (-2 ^ 63) (min x (2 ^ 63 - 1))

/-! ## One call -/

theorem signedMaximum_toNat : signedMaximum.toNat = 2 ^ 63 - 1 := rfl

theorem le_signedMaximum {a : UInt64} (h : ¬ a > signedMaximum) : a.toNat < 2 ^ 63 := by
  rw [gt_iff_lt, UInt64.lt_iff_toNat_lt, signedMaximum_toNat] at h
  omega

theorem neg_signed {a : UInt64} (h : a.toNat < 2 ^ 63) : (-a.toInt64).toInt = -(a.toNat : Int) := by
  rw [Int64.toInt_neg, Checked.signed_toInt h]
  exact Int.bmod_eq_of_le (by omega) (by omega)

/-- Neither a difference, a conversion nor the negation wraps. -/
theorem getAvailableIterationTimeChecked_eq (t : Timing) (now : UInt64) :
    getAvailableIterationTimeChecked t now = some (getAvailableIterationTime t now) := by
  simp only [getAvailableIterationTimeChecked, getAvailableIterationTime]
  split
  · rfl
  · generalize addSaturated t.activeIterationStart t.desiredIterationPeriod = deadline
    split
    · rename_i hge
      rw [Checked.sub_bind hge]
      split
      · rfl
      · exact Checked.signed_eq (le_signedMaximum ‹_›)
    · rename_i hlt
      have hle : deadline ≤ now := UInt64.le_of_lt (UInt64.not_le.1 hlt)
      rw [Checked.sub_bind hle]
      split
      · rfl
      · rename_i h
        have hfits := le_signedMaximum h
        rw [Checked.signed_eq hfits, Option.bind_some]
        refine Checked.neg_eq ?_
        intro hmin
        have := congrArg Int64.toInt hmin
        rw [Checked.signed_toInt hfits] at this
        have hneg := Int64.toInt_minValue
        omega

/-- With an active start, the distance to its deadline, clamped. -/
theorem getAvailableIterationTime_toInt {t : Timing} (hD : 0 < t.desiredIterationPeriod)
    (hs : t.activeIterationStart ≠ 0) (now : UInt64) :
    (getAvailableIterationTime t now).toInt =
      clamp (min (t.activeIterationStart.toNat + t.desiredIterationPeriod.toNat) (2 ^ 64 - 1) - now.toNat) := by
  have hD' : ¬ (t.desiredIterationPeriod = 0 ∨ t.activeIterationStart = 0) := by
    rintro (h | h)
    · rw [h] at hD
      exact absurd hD (by decide)
    · exact hs h
  have hdeadline := addSaturated_toNat t.activeIterationStart t.desiredIterationPeriod
  have hword := now.toNat_lt
  simp only [getAvailableIterationTime, if_neg hD', clamp]
  generalize addSaturated t.activeIterationStart t.desiredIterationPeriod = deadline at hdeadline ⊢
  rw [← hdeadline]
  split
  · rename_i hge
    have hsub := UInt64.toNat_sub_of_le _ _ hge
    rw [ge_iff_le, UInt64.le_iff_toNat_le] at hge
    split
    · rename_i hbig
      rw [gt_iff_lt, UInt64.lt_iff_toNat_lt, signedMaximum_toNat, hsub] at hbig
      have hmax := Int64.toInt_maxValue
      omega
    · rename_i hsmall
      have hfits := le_signedMaximum hsmall
      rw [Checked.signed_toInt hfits]
      omega
  · rename_i hlt
    rw [ge_iff_le, UInt64.le_iff_toNat_le, Nat.not_le] at hlt
    have hsub := UInt64.toNat_sub_of_le now deadline (UInt64.le_iff_toNat_le.2 hlt.le)
    split
    · rename_i hbig
      rw [gt_iff_lt, UInt64.lt_iff_toNat_lt, signedMaximum_toNat, hsub] at hbig
      have hmin := Int64.toInt_minValue
      omega
    · rename_i hsmall
      have hfits := le_signedMaximum hsmall
      rw [neg_signed hfits]
      omega

theorem getAvailableIterationTime_inactive {t : Timing} (hs : t.activeIterationStart = 0) (now : UInt64) :
    getAvailableIterationTime t now = 0 :=
  if_pos (.inr hs)

/-- An iteration that started at 0 is late or early by nothing only at its
deadline. -/
theorem clamp_from_zero {D now : UInt64} :
    (0 : Int64).toInt = clamp (min ((0 : UInt64).toNat + D.toNat) (2 ^ 64 - 1) - now.toNat) ↔ now = D := by
  have hword := D.toNat_lt
  have hmin : min ((0 : UInt64).toNat + D.toNat) (2 ^ 64 - 1) = D.toNat := by
    rw [UInt64.toNat_zero]
    omega
  rw [hmin, ← UInt64.toNat_inj, Int64.toInt_zero, clamp]
  omega

/-! ## Runs -/

inductive ActiveEvent
  | reset
  | started (start : UInt64)
  deriving DecidableEq, Repr

/-- A reset of the measurements, and the start of an iteration. -/
def activeEvent (m : Machine) : RunAction → Option ActiveEvent
  | .act .resetSchedule => some .reset
  | .act (.setIterationDeltaMode mode) => if m.timing.deltaMode ≠ mode then some .reset else none
  | .act .schedule =>
    match m.loop with
    | .sampled now =>
      match (scheduleLocked m.timing now).2 with
      | .iterate _ _ _ => some (.started now)
      | .wait _ => none
    | _ => none
  | _ => none

/-- The start of the latest iteration since the last reset. -/
def latestStart (l : List ActiveEvent) : Option UInt64 :=
  match l.getLast? with
  | some (.started start) => some start
  | _ => none

variable {m m' : Machine} {l : List ActiveEvent}

theorem initializeSchedule_active (t : Timing) (now : UInt64) :
    (initializeSchedule t now).activeIterationStart = t.activeIterationStart := by
  unfold initializeSchedule
  split <;> rfl

theorem activeIterationStart_step {a : RunAction} (h : m.timing.activeIterationStart = (latestStart l).getD 0)
    (hs : runStep m a = some m') :
    m'.timing.activeIterationStart = (latestStart (l ++ (activeEvent m a).toList)).getD 0 := by
  have hkeep : activeEvent m a = none → m'.timing.activeIterationStart = m.timing.activeIterationStart →
      m'.timing.activeIterationStart = (latestStart (l ++ (activeEvent m a).toList)).getD 0 := by
    intro he hm
    rw [he, hm, h]
    simp
  have hreset : activeEvent m a = some .reset → m'.timing.activeIterationStart = 0 →
      m'.timing.activeIterationStart = (latestStart (l ++ (activeEvent m a).toList)).getD 0 := by
    intro he hm
    rw [he, hm]
    simp [latestStart]
  cases a with
  | iterateThrows =>
    simp only [runStep] at hs
    split at hs <;> cases hs
    exact hkeep rfl rfl
  | act a =>
    cases a with
    | wakeForWork | bumpRead | setIterationPeriod | setDesiredIterationPeriod | setIterationSampleCount =>
      cases hs
      exact hkeep rfl rfl
    | callOnLoop =>
      simp only [runStep, step] at hs
      split at hs
      · split at hs <;> cases hs <;> exact hkeep rfl rfl
      · cases hs
    | readClock now =>
      simp only [runStep, step] at hs
      split at hs <;> cases hs
      exact hkeep rfl rfl
    | bumpStore i =>
      simp only [runStep, step, Option.map_eq_some_iff] at hs
      obtain ⟨now, -, rfl⟩ := hs
      exact hkeep rfl rfl
    | resetSchedule =>
      cases hs
      exact hreset rfl rfl
    | setIterationDeltaMode mode =>
      cases hs
      by_cases hmode : m.timing.deltaMode = mode
      · refine hkeep (if_neg (not_not_intro hmode)) ?_
        simp only [setIterationDeltaMode, if_neg (not_not_intro hmode)]
      · refine hreset (if_pos hmode) ?_
        simp only [setIterationDeltaMode, if_pos hmode, resetMeasurementsLocked]
    | complete endTime =>
      simp only [runStep, step] at hs
      split at hs
      · cases hs
        refine hkeep rfl ?_
        simp only [completeLocked]
        split <;> rfl
      · cases hs
    | schedule =>
      simp only [runStep, step] at hs
      split at hs
      · rename_i now hloop
        cases hs
        rcases scheduleLocked_cases m.timing now with ⟨remaining, hrun, -⟩ | ⟨next, skipped, hrun⟩
        · refine hkeep ?_ ?_
          · simp only [activeEvent, hloop, hrun]
          · simp only [runSchedule, hrun]
            exact initializeSchedule_active _ _
        · simp [runSchedule, activeEvent, hloop, hrun, latestStart]
      · cases hs

/-- In every run and at every clock reading: nothing wraps; without an
iteration since the last reset the available time is 0; and with one that
started at `s` it is the clamped distance to `s` plus the desired period,
saturated, exactly when `s` is not 0 or the reading is that deadline. -/
theorem available_time_exact : ∀ x, (runs.logged activeEvent).Reachable x → ∀ now,
    getAvailableIterationTimeChecked x.1.timing now = some (getAvailableIterationTime x.1.timing now) ∧
    (latestStart x.2 = none → getAvailableIterationTime x.1.timing now = 0) ∧
    ∀ s, latestStart x.2 = some s → 0 < x.1.timing.desiredIterationPeriod →
      ((getAvailableIterationTime x.1.timing now).toInt =
          clamp (min (s.toNat + x.1.timing.desiredIterationPeriod.toNat) (2 ^ 64 - 1) - now.toNat) ↔
        s ≠ 0 ∨ now = x.1.timing.desiredIterationPeriod) := by
  intro x hx now
  have hactive : x.1.timing.activeIterationStart = (latestStart x.2).getD 0 := by
    refine hx.invariant (I := fun x => x.1.timing.activeIterationStart = (latestStart x.2).getD 0) ?_ ?_
    · rintro ⟨m, l⟩ ⟨hm, hl⟩
      cases hm
      cases hl
      rfl
    · intro x a y hI _ hs
      obtain ⟨hst, hl⟩ := System.logged_step.1 hs
      rw [hl]
      exact activeIterationStart_step hI hst
  refine ⟨getAvailableIterationTimeChecked_eq _ now, fun hnone => ?_, fun s hsome hD => ?_⟩
  · rw [hnone] at hactive
    exact getAvailableIterationTime_inactive hactive now
  · rw [hsome] at hactive
    have hactive' : x.1.timing.activeIterationStart = s := hactive
    by_cases hs : s = 0
    · -- the start of the iteration is the mark of no iteration
      rw [getAvailableIterationTime_inactive (hactive'.trans hs), hs, clamp_from_zero]
      simp
    · have := getAvailableIterationTime_toInt hD (hactive' ▸ hs) now
      rw [hactive'] at this
      simp [this, hs]

/-- The clock starts at 0, the desired period is 10. -/
def startsAtZero : List RunAction :=
  [.act (.setDesiredIterationPeriod 10), .act .callOnLoop, .act (.readClock 0), .act .schedule]

/-- In the first iteration, at the reading 25, the time is overrun by 15 and
reads 0. -/
theorem no_overrun_from_zero : ∃ x, (runs.logged activeEvent).Reachable x ∧ latestStart x.2 = some 0 ∧
    x.1.timing.desiredIterationPeriod = 10 ∧ (getAvailableIterationTime x.1.timing 25).toInt = 0 ∧
    clamp (min ((0 : UInt64).toNat + (10 : UInt64).toNat) (2 ^ 64 - 1) - (25 : UInt64).toNat) = -15 := by
  have hrun : ((runs.logged activeEvent).replay (fresh {}, []) startsAtZero).map
      (fun x => (x.2, x.1.timing.desiredIterationPeriod, (getAvailableIterationTime x.1.timing 25).toInt)) =
      some ([.started 0], 10, 0) := by
    decide
  obtain ⟨x, hs, hl⟩ := Option.map_eq_some_iff.1 hrun
  have hinit : (runs.logged activeEvent).init (fresh {}, []) := ⟨rfl, rfl⟩
  obtain ⟨h1, h2, h3⟩ : x.2 = [.started 0] ∧ x.1.timing.desiredIterationPeriod = 10 ∧
      (getAvailableIterationTime x.1.timing 25).toInt = 0 := by
    simpa using hl
  exact ⟨x, System.reachable_of_replay hinit hs, by rw [h1]; rfl, h2, h3, by decide⟩

/-- The next iteration starts at 40, and at 65 it is 15 late. -/
theorem overrun_after_zero : ∃ x, (runs.logged activeEvent).Reachable x ∧ latestStart x.2 = some 40 ∧
    (getAvailableIterationTime x.1.timing 65).toInt = -15 := by
  have hrun : ((runs.logged activeEvent).replay (fresh {}, []) (startsAtZero ++
      [.act (.complete 30), .act .callOnLoop, .act (.readClock 40), .act .schedule])).map
      (fun x => (x.2, x.1.timing.desiredIterationPeriod)) = some ([.started 0, .started 40], 10) := by
    decide
  obtain ⟨x, hs, hl⟩ := Option.map_eq_some_iff.1 hrun
  have hinit : (runs.logged activeEvent).init (fresh {}, []) := ⟨rfl, rfl⟩
  have hr := System.reachable_of_replay hinit hs
  obtain ⟨h1, h2⟩ : x.2 = [.started 0, .started 40] ∧ x.1.timing.desiredIterationPeriod = 10 := by
    simpa using hl
  have hlatest : latestStart x.2 = some 40 := by rw [h1]; rfl
  have hexact := ((available_time_exact x hr 65).2.2 40 hlatest (by rw [h2]; decide)).2 (.inl (by decide))
  refine ⟨x, hr, hlatest, ?_⟩
  rw [hexact, h2]
  decide

end ESPressio.Precision
