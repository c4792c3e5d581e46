import Mathlib.Algebra.Order.Ring.Rat
import ESPressioThreads.Lib.Window
import ESPressioThreads.Precision.Runs
/-!
# The rolling window

The samples are the start-to-start differences of the log: each iteration after
a recorded one, since the measurements were reset or the sample count changed.
The window holds the last of them, and both frequencies are read off the
window. The delta mode is not in the log, since the samples do not depend on it.
-/

namespace ESPressio.Precision

open Transition

/-- What the samples see of a run. `stored` is an iteration whose second section
found the generation that it started in. -/
inductive SampleEvent
  | reset
  | resized
  | started (reading : UInt64)
  | stored (start : UInt64)
  deriving DecidableEq, Repr

def sampleEvent (m : Machine) : RunAction → Option SampleEvent
  | .act .resetSchedule => some .reset
  | .act (.setIterationDeltaMode mode) => if m.timing.deltaMode ≠ mode then some .reset else none
  | .act (.setIterationSampleCount _) => some .resized
  | .act .schedule =>
    match m.loop with
    | .sampled now =>
      match (scheduleLocked m.timing now).2 with
      | .iterate _ _ _ => some (.started now)
      | .wait _ => none
    | _ => none
  | .act (.complete _) =>
    match m.loop with
    | .iterating now generation => if generation = m.timing.measurementGeneration then some (.stored now) else none
    | _ => none
  | _ => none

/-! ## What is recorded -/

/-- The start of the iteration stored last, and the differences recorded. -/
structure Recording where
  previous : Option UInt64
  differences : List UInt64

def Recording.empty : Recording := ⟨none, []⟩

/-- An iteration at a later reading than the stored start adds their difference,
which is not zero. -/
def Recording.next (r : Recording) : SampleEvent → Recording
  | .reset => .empty
  | .resized => { r with differences := [] }
  | .started now =>
    match r.previous with
    | some start => if start < now then { r with differences := r.differences ++ [now - start] } else r
    | none => r
  | .stored start => { r with previous := some start }

/-- What a log has recorded. -/
def recording (l : List SampleEvent) : Recording := l.foldl Recording.next .empty

theorem recording_append (l : List SampleEvent) (e : SampleEvent) :
    recording (l ++ [e]) = (recording l).next e := by
  simp [recording]

/-! ## The state and its window -/

/-- The instantaneous frequency of a sample. -/
def frequencyOf (sample : UInt64) : Rat := nanosecondsPerSecond / (sample.toNat : Rat)

/-- The mean frequency of a window. -/
def meanFrequency (w : List UInt64) : Rat := w.length * nanosecondsPerSecond / ((w.map UInt64.toNat).sum : Rat)

/-- The two frequencies, read off the window `w`. -/
structure Frequencies (w : List UInt64) (current average : Rat) : Prop where
  none : w = [] → current = 0 ∧ average = 0
  newest : ∀ sample, w.getLast? = some sample → current = frequencyOf sample ∧ average = meanFrequency w

/-- A desired period is none, or there is no period, or it is no shorter. -/
def PeriodsOrdered (t : Timing) : Prop :=
  t.desiredIterationPeriod = 0 ∨ t.iterationPeriod = 0 ∨ t.iterationPeriod ≤ t.desiredIterationPeriod

/-- The timing state after the recording `r`. -/
structure Rolling (t : Timing) (r : Recording) : Prop where
  previous : r.previous = if t.hasPreviousIteration then some t.previousStart else none
  window : t.iterationSamples = Window.last t.iterationSampleCount.toNat r.differences
  frequencies : Frequencies t.iterationSamples t.iterationFrequency t.averageIterationFrequency
  positive : ∀ d ∈ r.differences, 0 < d

variable {t t' : Timing} {r : Recording}

theorem frequencies_nil : Frequencies [] 0 0 := ⟨fun _ => ⟨rfl, rfl⟩, nofun⟩

/-- Everything that `Rolling` reads is unchanged. -/
theorem Rolling.frame (h : Rolling t r) (hhas : t'.hasPreviousIteration = t.hasPreviousIteration)
    (hstart : t'.previousStart = t.previousStart) (hcount : t'.iterationSampleCount = t.iterationSampleCount)
    (hsamples : t'.iterationSamples = t.iterationSamples) (hfreq : t'.iterationFrequency = t.iterationFrequency)
    (haverage : t'.averageIterationFrequency = t.averageIterationFrequency) : Rolling t' r where
  previous := by rw [hhas, hstart]; exact h.previous
  window := by rw [hsamples, hcount]; exact h.window
  frequencies := by rw [hsamples, hfreq, haverage]; exact h.frequencies
  positive := h.positive

theorem rolling_reset (t : Timing) : Rolling (resetMeasurementsLocked t) .empty where
  previous := rfl
  window := (Window.last_nil _).symm
  frequencies := frequencies_nil
  positive := nofun

theorem Rolling.resized (h : Rolling t r) (count : UInt32) :
    Rolling (setIterationSampleCount t count) (r.next .resized) where
  previous := h.previous
  window := (Window.last_nil _).symm
  frequencies := frequencies_nil
  positive := nofun

theorem Rolling.stored (h : Rolling t r) (start endTime : UInt64) :
    Rolling (completeLocked t t.measurementGeneration start endTime) (r.next (.stored start)) := by
  rw [completeLocked, if_pos rfl]
  exact ⟨rfl, h.window, h.frequencies, h.positive⟩

/-- A positive difference goes into the window, and a zero sample count keeps
the window empty. -/
theorem Rolling.record (h : Rolling t r) {d : UInt64} (hd : 0 < d) :
    Rolling (recordSampleLocked t d) { r with differences := r.differences ++ [d] } := by
  have hd0 : d ≠ 0 := by
    rintro rfl
    exact absurd hd (by decide)
  have hpositive : ∀ x ∈ r.differences ++ [d], 0 < x := by
    intro x hx
    rcases List.mem_append.1 hx with hx | hx
    · exact h.positive x hx
    · rw [List.mem_singleton.1 hx]
      exact hd
  by_cases hcount : t.iterationSampleCount = 0
  · rw [recordSampleLocked, if_pos (.inl hcount)]
    refine ⟨h.previous, ?_, h.frequencies, hpositive⟩
    rw [h.window, hcount]
    simp [Window.last]
  · have hn : 0 < t.iterationSampleCount.toNat :=
      Nat.pos_of_ne_zero fun h0 => hcount (UInt32.toNat_inj.1 h0)
    have hwindow : keepLast t.iterationSampleCount.toNat (t.iterationSamples ++ [d]) =
        Window.last t.iterationSampleCount.toNat (r.differences ++ [d]) := by
      rw [h.window]
      exact Window.last_append _ _ _
    have hnewest := Window.getLast?_last_append hn r.differences d
    rw [recordSampleLocked, if_neg (by simp [hcount, hd0]), hwindow]
    refine ⟨h.previous, rfl, ⟨fun hnil => ?_, fun sample hsample => ?_⟩, hpositive⟩
    · have hnil' : Window.last t.iterationSampleCount.toNat (r.differences ++ [d]) = [] := hnil
      rw [hnil'] at hnewest
      cases hnewest
    · have hsum : 0 < ((Window.last t.iterationSampleCount.toNat (r.differences ++ [d])).map UInt64.toNat).sum := by
        have hmem := List.mem_map_of_mem (f := UInt64.toNat) (List.mem_of_getLast? hnewest)
        have hle := List.single_le_sum (by simp) _ hmem
        exact lt_of_lt_of_le (UInt64.lt_iff_toNat_lt.1 hd) hle
      have hsample' := hnewest.symm.trans hsample
      cases hsample'
      exact ⟨rfl, if_pos hsum⟩

/-- Measuring at `now` records the difference to the stored start. -/
theorem Rolling.measure (h : Rolling t r) (now : UInt64) : Rolling (measure t now).1 (r.next (.started now)) := by
  have hprevious := h.previous
  unfold Precision.measure
  split at hprevious
  · rename_i hhas
    rw [if_pos hhas]
    simp only [Recording.next, hprevious]
    by_cases hlt : t.previousStart < now
    · have hle : t.previousStart ≤ now := UInt64.le_of_lt hlt
      have hd : 0 < now - t.previousStart := by
        rw [UInt64.lt_iff_toNat_lt, UInt64.toNat_sub_of_le _ _ hle, UInt64.toNat_zero]
        have := UInt64.lt_iff_toNat_lt.1 hlt
        omega
      have hrecord := h.record hd
      rw [hprevious] at hrecord
      rw [if_pos hlt, if_pos hle]
      exact hrecord
    · rw [if_neg hlt]
      -- not later: the clock went back, or the difference is zero
      split
      · rename_i hge
        have heq : now = t.previousStart := UInt64.le_antisymm (UInt64.not_lt.1 hlt) hge
        rw [recordSampleLocked, if_pos (.inr (by rw [heq, UInt64.sub_self]))]
        exact h
      · exact h
  · rename_i hhas
    rw [if_neg hhas]
    simp only [Recording.next, hprevious]
    exact h

theorem Rolling.scheduled (h : Rolling t r) (now : UInt64) :
    match (scheduleLocked t now).2 with
    | .iterate _ _ _ => Rolling (scheduleLocked t now).1 (r.next (.started now))
    | .wait _ => Rolling (scheduleLocked t now).1 r := by
  have hinit : Rolling (initializeSchedule t now) r := by
    unfold initializeSchedule
    split
    · exact h
    · exact h.frame rfl rfl rfl rfl rfl rfl
  rcases scheduleLocked_cases t now with ⟨remaining, hrun, -⟩ | ⟨next, skipped, hrun⟩
  · rw [hrun]
    exact hinit
  · rw [hrun]
    exact (hinit.measure now).frame rfl rfl rfl rfl rfl rfl

/-! ## The periods -/

theorem periodsOrdered_setIterationPeriod (t : Timing) (ns : UInt64) : PeriodsOrdered (setIterationPeriod t ns) := by
  simp only [PeriodsOrdered, setIterationPeriod]
  split
  · exact .inr (.inr (UInt64.le_refl _))
  · rename_i h
    by_cases hd : t.desiredIterationPeriod = 0
    · exact .inl hd
    · by_cases hn : ns = 0
      · exact .inr (.inl hn)
      · refine .inr (.inr (UInt64.not_lt.1 fun hlt => h ⟨UInt64.pos_iff_ne_zero.2 hn, ?_, hlt⟩))
        exact UInt64.pos_iff_ne_zero.2 hd

theorem periodsOrdered_setDesiredIterationPeriod (t : Timing) (ns : UInt64) :
    PeriodsOrdered (setDesiredIterationPeriod t ns) := by
  simp only [PeriodsOrdered, setDesiredIterationPeriod]
  split
  · exact .inr (.inr (UInt64.le_refl _))
  · rename_i h
    by_cases hn : ns = 0
    · exact .inl hn
    · by_cases hp : t.iterationPeriod = 0
      · exact .inr (.inl hp)
      · refine .inr (.inr (UInt64.not_lt.1 fun hlt => h ⟨UInt64.pos_iff_ne_zero.2 hp, ?_, hlt⟩))
        exact UInt64.pos_iff_ne_zero.2 hn

/-! ## Runs -/

/-- The timing state of a run, with its log. -/
structure TimingInv (m : Machine) (l : List SampleEvent) : Prop where
  rolling : Rolling m.timing (recording l)
  periods : PeriodsOrdered m.timing

variable {m m' : Machine} {l : List SampleEvent}

theorem timingInv_fresh : TimingInv (fresh {}) [] where
  rolling := ⟨rfl, (Window.last_nil _).symm, frequencies_nil, nofun⟩
  periods := .inl rfl

/-- A step without an event that leaves the measurements alone. -/
theorem TimingInv.frame (h : TimingInv m l) {e : Option SampleEvent} (he : e = none)
    (hr : Rolling m.timing (recording l) → Rolling m'.timing (recording l)) (hp : PeriodsOrdered m'.timing) :
    TimingInv m' (l ++ e.toList) := by
  rw [he, Option.toList_none, List.append_nil]
  exact ⟨hr h.rolling, hp⟩

theorem TimingInv.event {e : Option SampleEvent} {x : SampleEvent} (he : e = some x)
    (hr : Rolling m'.timing ((recording l).next x)) (hp : PeriodsOrdered m'.timing) : TimingInv m' (l ++ e.toList) := by
  rw [he, Option.toList_some]
  exact ⟨by rw [recording_append]; exact hr, hp⟩

theorem measure_periods (t : Timing) (now : UInt64) :
    (measure t now).1.iterationPeriod = t.iterationPeriod ∧
      (measure t now).1.desiredIterationPeriod = t.desiredIterationPeriod := by
  unfold measure
  split
  · dsimp only
    split
    · unfold recordSampleLocked
      split <;> exact ⟨rfl, rfl⟩
    · exact ⟨rfl, rfl⟩
  · exact ⟨rfl, rfl⟩

theorem PeriodsOrdered.scheduled {t : Timing} (h : PeriodsOrdered t) (now : UInt64) :
    PeriodsOrdered (scheduleLocked t now).1 := by
  have hinit : PeriodsOrdered (initializeSchedule t now) := by
    unfold initializeSchedule
    split <;> exact h
  rcases scheduleLocked_cases t now with ⟨remaining, hrun, -⟩ | ⟨next, skipped, hrun⟩
  · rw [hrun]
    exact hinit
  · obtain ⟨hperiod, hdesired⟩ := measure_periods (initializeSchedule t now) now
    rw [hrun]
    simp only [PeriodsOrdered, hperiod, hdesired]
    exact hinit

theorem TimingInv.step {a : RunAction} (h : TimingInv m l) (hs : runStep m a = some m') :
    TimingInv m' (l ++ (sampleEvent m a).toList) := by
  cases a with
  | iterateThrows =>
    simp only [runStep] at hs
    split at hs <;> cases hs
    exact h.frame rfl id h.periods
  | act a =>
    cases a with
    | wakeForWork | bumpRead =>
      cases hs
      exact h.frame rfl id h.periods
    | callOnLoop =>
      simp only [runStep, Precision.step] at hs
      split at hs
      · split at hs <;> cases hs <;> exact h.frame rfl id h.periods
      · cases hs
    | readClock now =>
      simp only [runStep, Precision.step] at hs
      split at hs <;> cases hs
      exact h.frame rfl id h.periods
    | bumpStore i =>
      simp only [runStep, Precision.step, Option.map_eq_some_iff] at hs
      obtain ⟨now, -, rfl⟩ := hs
      exact h.frame rfl (fun hr => hr.frame rfl rfl rfl rfl rfl rfl) h.periods
    | resetSchedule =>
      cases hs
      exact .event rfl (rolling_reset _) h.periods
    | setIterationPeriod ns =>
      cases hs
      exact h.frame rfl (fun hr => hr.frame rfl rfl rfl rfl rfl rfl) (periodsOrdered_setIterationPeriod _ ns)
    | setDesiredIterationPeriod ns =>
      cases hs
      exact h.frame rfl (fun hr => hr.frame rfl rfl rfl rfl rfl rfl) (periodsOrdered_setDesiredIterationPeriod _ ns)
    | setIterationDeltaMode mode =>
      cases hs
      by_cases hmode : m.timing.deltaMode = mode
      · have hsame : setIterationDeltaMode m.timing mode = m.timing := if_neg (not_not_intro hmode)
        refine h.frame (if_neg (not_not_intro hmode)) (fun hr => ?_) ?_
        · rw [hsame]
          exact hr
        · rw [hsame]
          exact h.periods
      · have hreset : setIterationDeltaMode m.timing mode = resetMeasurementsLocked { m.timing with deltaMode := mode } :=
          if_pos hmode
        refine .event (if_pos hmode) ?_ ?_
        · rw [hreset]
          exact rolling_reset _
        · rw [hreset]
          exact h.periods
    | setIterationSampleCount count =>
      cases hs
      exact .event rfl (h.rolling.resized count) h.periods
    | complete endTime =>
      simp only [runStep, Precision.step] at hs
      split at hs
      · rename_i now generation hloop
        cases hs
        by_cases hgen : generation = m.timing.measurementGeneration
        · subst hgen
          refine .event (by simp only [sampleEvent, hloop, if_true]) (h.rolling.stored now endTime) ?_
          rw [completeLocked, if_pos rfl]
          exact h.periods
        · have hsame : completeLocked m.timing generation now endTime = m.timing := if_neg hgen
          refine h.frame (by simp only [sampleEvent, hloop, if_neg hgen]) (fun hr => ?_) ?_
          · rw [hsame]
            exact hr
          · rw [hsame]
            exact h.periods
      · cases hs
    | schedule =>
      simp only [runStep, Precision.step] at hs
      split at hs
      · rename_i now hloop
        cases hs
        have hrolling := h.rolling.scheduled now
        have hperiods := h.periods.scheduled now
        rcases scheduleLocked_cases m.timing now with ⟨remaining, hrun, -⟩ | ⟨next, skipped, hrun⟩
        · rw [hrun] at hrolling hperiods
          refine h.frame (by simp only [sampleEvent, hloop, hrun]) (fun _ => ?_) ?_
          · simpa only [runSchedule, hrun] using hrolling
          · simpa only [runSchedule, hrun] using hperiods
        · rw [hrun] at hrolling hperiods
          refine .event (x := .started now) (by simp only [sampleEvent, hloop, hrun]) ?_ ?_
          · simpa only [runSchedule, hrun] using hrolling
          · simpa only [runSchedule, hrun] using hperiods
      · cases hs

theorem timingInv_reachable {x : Machine × List SampleEvent} (h : (runs.logged sampleEvent).Reachable x) :
    TimingInv x.1 x.2 := by
  refine h.invariant (I := fun x => TimingInv x.1 x.2) ?_ ?_
  · rintro ⟨m, l⟩ ⟨hm, hl⟩
    cases hm
    cases hl
    exact timingInv_fresh
  · intro x a y hI _ hs
    obtain ⟨hst, hl⟩ := System.logged_step.1 hs
    rw [hl]
    exact hI.step hst

/-! ## Main theorem -/

theorem frequencyOf_pos {d : UInt64} (hd : 0 < d) : 0 < frequencyOf d := by
  have hd' : (0 : Rat) < (d.toNat : Rat) := by exact_mod_cast UInt64.lt_iff_toNat_lt.1 hd
  exact div_pos (by norm_num [nanosecondsPerSecond]) hd'

/-- The mean frequency of a window of positive samples lies between two of its
instantaneous frequencies, the least and the greatest. -/
theorem meanFrequency_between {w : List UInt64} (hw : w ≠ []) (hpos : ∀ s ∈ w, 0 < s) :
    ∃ slow ∈ w, ∃ fast ∈ w,
      (∀ s ∈ w, frequencyOf slow ≤ frequencyOf s ∧ frequencyOf s ≤ frequencyOf fast) ∧
      frequencyOf slow ≤ meanFrequency w ∧ meanFrequency w ≤ frequencyOf fast := by
  have hmap : w.map UInt64.toNat ≠ [] := by simpa using hw
  have hposNat : ∀ n ∈ w.map UInt64.toNat, 0 < n := by
    intro n hn
    obtain ⟨s, hs, rfl⟩ := List.mem_map.1 hn
    exact UInt64.lt_iff_toNat_lt.1 (hpos s hs)
  obtain ⟨short, hshort, long, hlong, hall, hlow, hhigh⟩ :=
    Window.mean_rate_between (K := Rat) hmap hposNat (c := nanosecondsPerSecond) (by norm_num [nanosecondsPerSecond])
  obtain ⟨fast, hfast, rfl⟩ := List.mem_map.1 hshort
  obtain ⟨slow, hslow, rfl⟩ := List.mem_map.1 hlong
  rw [List.length_map] at hlow hhigh
  exact ⟨slow, hslow, fast, hfast, fun s hs => hall _ (List.mem_map_of_mem hs), hlow, hhigh⟩

/-- In every reachable state the periods are ordered, the window holds the last
of the recorded differences, as many as the sample count allows, and the
frequencies are those of the window. -/
theorem rolling_window : ∀ x, (runs.logged sampleEvent).Reachable x →
    let t := x.1.timing
    let recorded := (recording x.2).differences
    (t.desiredIterationPeriod = 0 ∨ t.iterationPeriod = 0 ∨ t.iterationPeriod ≤ t.desiredIterationPeriod) ∧
    (t.iterationSamples <:+ recorded ∧
      t.iterationSamples.length = min recorded.length t.iterationSampleCount.toNat) ∧
    (t.iterationFrequency = 0 ↔ t.iterationSamples = []) ∧
    (t.averageIterationFrequency = 0 ↔ t.iterationSamples = []) ∧
    ∀ newest, t.iterationSamples.getLast? = some newest →
      t.iterationFrequency = frequencyOf newest ∧
      t.averageIterationFrequency = meanFrequency t.iterationSamples ∧
      ∃ slow ∈ t.iterationSamples, ∃ fast ∈ t.iterationSamples,
        (∀ s ∈ t.iterationSamples, frequencyOf slow ≤ frequencyOf s ∧ frequencyOf s ≤ frequencyOf fast) ∧
        frequencyOf slow ≤ t.averageIterationFrequency ∧ t.averageIterationFrequency ≤ frequencyOf fast := by
  intro x hx
  obtain ⟨hr, hp⟩ := timingInv_reachable hx
  have hsuffix : x.1.timing.iterationSamples <:+ (recording x.2).differences := by
    rw [hr.window]
    exact Window.last_suffix _ _
  have hpos : ∀ s ∈ x.1.timing.iterationSamples, 0 < s := fun s hs => hr.positive s (hsuffix.subset hs)
  -- a window that is not empty has a newest sample, and both frequencies are positive
  have hnewest : x.1.timing.iterationSamples ≠ [] → ∃ newest,
      x.1.timing.iterationSamples.getLast? = some newest ∧ 0 < x.1.timing.iterationFrequency ∧
        0 < x.1.timing.averageIterationFrequency := by
    intro hne
    have hlast := List.getLast?_eq_some_getLast hne
    obtain ⟨hfreq, haverage⟩ := hr.frequencies.newest _ hlast
    obtain ⟨slow, hslow, -, -, -, hlow, -⟩ := meanFrequency_between hne hpos
    refine ⟨_, hlast, ?_, ?_⟩
    · rw [hfreq]
      exact frequencyOf_pos (hpos _ (List.getLast_mem hne))
    · rw [haverage]
      exact lt_of_lt_of_le (frequencyOf_pos (hpos slow hslow)) hlow
  refine ⟨hp, ⟨hsuffix, ?_⟩, ⟨fun h0 => ?_, fun hnil => (hr.frequencies.none hnil).1⟩,
    ⟨fun h0 => ?_, fun hnil => (hr.frequencies.none hnil).2⟩, fun newest hlast => ?_⟩
  · rw [hr.window]
    exact Window.length_last _ _
  · by_contra hne
    obtain ⟨-, -, hfreq, -⟩ := hnewest hne
    exact absurd h0 (ne_of_gt hfreq)
  · by_contra hne
    obtain ⟨-, -, -, haverage⟩ := hnewest hne
    exact absurd h0 (ne_of_gt haverage)
  · obtain ⟨hfreq, haverage⟩ := hr.frequencies.newest newest hlast
    have hne : x.1.timing.iterationSamples ≠ [] := fun hnil => by simp [hnil] at hlast
    refine ⟨hfreq, haverage, ?_⟩
    rw [haverage]
    exact meanFrequency_between hne hpos

/-- One iteration at `start`. -/
def iteration (start : UInt64) : List RunAction :=
  [.act .callOnLoop, .act (.readClock start), .act .schedule, .act (.complete (start + 1))]

/-- A window of two samples, and four iterations. -/
def fourIterations : List RunAction :=
  .act (.setIterationSampleCount 2) :: iteration 5 ++ iteration 20 ++ iteration 30 ++ iteration 50

theorem fourIterations_window : ∃ x, (runs.logged sampleEvent).Reachable x ∧
    (recording x.2).differences = [15, 10, 20] ∧ x.1.timing.iterationSamples = [10, 20] ∧
    x.1.timing.iterationFrequency = frequencyOf 20 ∧
    x.1.timing.averageIterationFrequency = meanFrequency [10, 20] := by
  have hrun : ((runs.logged sampleEvent).replay (fresh {}, []) fourIterations).map
      (fun x => (x.2, x.1.timing.iterationSamples)) =
      some ([.resized, .started 5, .stored 5, .started 20, .stored 20, .started 30, .stored 30, .started 50,
        .stored 50], [10, 20]) := by
    decide
  obtain ⟨x, hs, hl⟩ := Option.map_eq_some_iff.1 hrun
  obtain ⟨hlog, hsamples⟩ := Prod.mk.inj hl
  have hinit : (runs.logged sampleEvent).init (fresh {}, []) := ⟨rfl, rfl⟩
  have hr := System.reachable_of_replay hinit hs
  obtain ⟨-, -, -, -, hnewest⟩ := rolling_window x hr
  obtain ⟨hfreq, haverage, -⟩ := hnewest 20 (by rw [hsamples]; rfl)
  rw [hsamples] at haverage
  exact ⟨x, hr, by rw [hlog]; decide, hsamples, hfreq, haverage⟩

end ESPressio.Precision
