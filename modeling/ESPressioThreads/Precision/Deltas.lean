import Mathlib.Data.List.Induction
import ESPressioThreads.Precision.Machine
/-!
# Deltas and resets

An iteration reads the measurements in one locked section and stores its own in
another, with `Iterate` between them. A reset that falls between the two raises
the generation, so what the second section stores is never from before the last
reset.

`Measurement` says what is measured, over the log alone; the machine follows it
as long as the generation does not wrap. `Iterate` returns here: one that
throws ends the worker's loop.
-/

namespace ESPressio.Precision

open Transition

/-- What the measurements see of a run. `sampled` when the scheduling section
changed the statistics. -/
inductive TimingEvent
  | reset
  | started (reading : UInt64) (mode : IterationDeltaMode) (delta : UInt64) (sampled : Bool)
  | ended (reading : UInt64)
  deriving DecidableEq, Repr

/-- The samples or the frequencies of `t'` are not those of `t`. -/
def statisticsChanged (t t' : Timing) : Bool :=
  t'.iterationSamples ≠ t.iterationSamples || t'.iterationFrequency ≠ t.iterationFrequency ||
    t'.averageIterationFrequency ≠ t.averageIterationFrequency

def timingEvent (m : Machine) : Action → Option TimingEvent
  | .resetSchedule => some .reset
  | .setIterationDeltaMode mode => if m.timing.deltaMode ≠ mode then some .reset else none
  | .schedule =>
    match m.loop with
    | .sampled now =>
      match scheduleLocked m.timing now with
      | (t, .iterate delta _ _) => some (.started now m.timing.deltaMode delta (statisticsChanged m.timing t))
      | (_, .wait _) => none
    | _ => none
  | .complete endTime =>
    match m.loop with
    | .iterating _ _ => some (.ended endTime)
    | _ => none
  | _ => none

/-- Runs of a constructed thread, with the log of its measurements. -/
def measured : System (Machine × List TimingEvent) Action := (system {}).logged timingEvent

def TimingEvent.isReset : TimingEvent → Bool
  | .reset => true
  | _ => false

def TimingEvent.isStart : TimingEvent → Bool
  | .started _ _ _ _ => true
  | _ => false

def TimingEvent.reading? : TimingEvent → Option UInt64
  | .reset => none
  | .started now _ _ _ => some now
  | .ended endTime => some endTime

/-- The clock readings of the iterations, in their order. -/
def readings (l : List TimingEvent) : List UInt64 := l.filterMap TimingEvent.reading?

/-- How often the measurements were reset. -/
def resets (l : List TimingEvent) : Nat := l.countP TimingEvent.isReset

/-! ## What is measured -/

/-- The last iteration that ended since the last reset, and the one in progress,
with whether it started since. -/
structure Measurement where
  previous : Option (UInt64 × UInt64)
  pending : Option (UInt64 × Bool)
  deriving DecidableEq, Repr

/-- The measurement after an event, when the event can happen. -/
def Measurement.next (t : Measurement) : TimingEvent → Option Measurement
  | .reset => some ⟨none, t.pending.map fun p => (p.1, false)⟩
  | .started now _ _ _ => if t.pending = none then some ⟨t.previous, some (now, true)⟩ else none
  | .ended endTime =>
    match t.pending with
    | some (start, true) => some ⟨some (start, endTime), none⟩
    | some (_, false) => some ⟨t.previous, none⟩
    | none => none

/-- The measurement after a log. -/
def Measurement.run (t : Measurement) : List TimingEvent → Option Measurement
  | [] => some t
  | e :: l => (t.next e).bind fun t => t.run l

/-- Nothing was measured. -/
def Measurement.empty : Measurement := ⟨none, none⟩

section
variable {t t' : Measurement} {l l' : List TimingEvent} {e : TimingEvent}

theorem Measurement.run_append : t.run (l ++ l') = (t.run l).bind fun t => t.run l' := by
  induction l generalizing t with
  | nil => rfl
  | cons e l ih =>
    simp only [List.cons_append, Measurement.run]
    cases t.next e with
    | none => rfl
    | some t₁ => exact ih

/-- An iteration that started since the last reset. -/
def StartedSinceReset (l : List TimingEvent) (start : UInt64) : Prop :=
  ∃ l₀ mode delta sampled mid, l = l₀ ++ .started start mode delta sampled :: mid ∧ .reset ∉ mid

theorem StartedSinceReset.append {start : UInt64} (h : StartedSinceReset l start) (he : e ≠ .reset) :
    StartedSinceReset (l ++ [e]) start := by
  obtain ⟨l₀, mode, delta, sampled, mid, rfl, hmid⟩ := h
  refine ⟨l₀, mode, delta, sampled, mid ++ [e], by simp, ?_⟩
  simp only [List.mem_append, List.mem_singleton, not_or]
  exact ⟨hmid, Ne.symm he⟩

/-- What the measurement remembers started since the last reset, and its end is
in the log. -/
theorem Measurement.run_remembers (h : Measurement.empty.run l = some t) :
    (∀ start endTime, t.previous = some (start, endTime) → StartedSinceReset l start ∧ .ended endTime ∈ l) ∧
      ∀ start, t.pending = some (start, true) → StartedSinceReset l start := by
  induction l using List.reverseRecOn generalizing t with
  | nil =>
    cases h
    exact ⟨nofun, nofun⟩
  | append_singleton l e ih =>
    rw [Measurement.run_append] at h
    obtain ⟨t₁, ht₁, h⟩ := Option.bind_eq_some_iff.1 h
    obtain ⟨t₂, ht, h⟩ := Option.bind_eq_some_iff.1 h
    cases h
    obtain ⟨hprev, hpend⟩ := ih ht₁
    cases e with
    | reset =>
      cases ht
      refine ⟨nofun, ?_⟩
      intro start hs
      cases hp : t₁.pending <;> simp [hp] at hs
    | started now mode delta sampled =>
      simp only [Measurement.next] at ht
      split at ht <;> cases ht
      refine ⟨?_, ?_⟩
      · intro start endTime hp
        obtain ⟨hs, he⟩ := hprev start endTime hp
        exact ⟨hs.append nofun, List.mem_append_left _ he⟩
      · intro start hs
        cases hs
        exact ⟨l, mode, delta, sampled, [], rfl, nofun⟩
    | ended endTime =>
      simp only [Measurement.next] at ht
      split at ht
      · rename_i start hp
        cases ht
        refine ⟨?_, nofun⟩
        intro start' end' hs
        cases hs
        exact ⟨(hpend start hp).append nofun, by simp⟩
      · cases ht
        refine ⟨?_, nofun⟩
        intro start end' hp
        obtain ⟨hs, he⟩ := hprev start end' hp
        exact ⟨hs.append nofun, List.mem_append_left _ he⟩
      · cases ht

/-- After its start an iteration is in progress, and after its end it is the
previous one. -/
theorem Measurement.run_started {l₀ mid : List TimingEvent} {start delta : UInt64} {mode : IterationDeltaMode}
    {sampled : Bool} (h : Measurement.empty.run (l₀ ++ .started start mode delta sampled :: mid) = some t)
    (hreset : .reset ∉ mid) (hstart : ∀ e ∈ mid, e.isStart = false) :
    (mid = [] ∧ t.pending = some (start, true)) ∨
      ∃ endTime, mid = [.ended endTime] ∧ t.previous = some (start, endTime) ∧ t.pending = none := by
  rw [Measurement.run_append] at h
  obtain ⟨t₀, -, h⟩ := Option.bind_eq_some_iff.1 h
  obtain ⟨t₁, ht₁, h⟩ := Option.bind_eq_some_iff.1 h
  simp only [Measurement.next] at ht₁
  split at ht₁ <;> cases ht₁
  match mid with
  | [] =>
    cases h
    exact .inl ⟨rfl, rfl⟩
  | .reset :: _ => exact absurd List.mem_cons_self hreset
  | .started n m d s :: _ => cases hstart _ List.mem_cons_self
  | [.ended endTime] =>
    cases h
    exact .inr ⟨endTime, rfl, rfl, rfl⟩
  | .ended _ :: .reset :: _ => exact absurd (by simp) hreset
  | .ended _ :: .started n m d s :: _ => cases hstart (.started n m d s) (by simp)
  -- One iteration does not end twice.
  | .ended _ :: .ended _ :: _ => cases h

end

/-! ## The locked sections -/

section
variable {t t' : Timing} {now : UInt64}

/-- What an iteration computes its delta from. -/
def baseline (t : Timing) : UInt64 :=
  match t.deltaMode with
  | .StartToStart => t.previousStart
  | .EndToStart => t.previousEnd

/-- Recording a sample changes the statistics only. -/
theorem recordSampleLocked_frame (t : Timing) (delta : UInt64) :
    (recordSampleLocked t delta).hasPreviousIteration = t.hasPreviousIteration ∧
      (recordSampleLocked t delta).previousStart = t.previousStart ∧
      (recordSampleLocked t delta).previousEnd = t.previousEnd ∧
      (recordSampleLocked t delta).measurementGeneration = t.measurementGeneration := by
  unfold recordSampleLocked
  split <;> exact ⟨rfl, rfl, rfl, rfl⟩

/-- The scheduling section leaves the measured readings and the generation. -/
structure SameReadings (t t' : Timing) : Prop where
  hasPrevious : t'.hasPreviousIteration = t.hasPreviousIteration
  previousStart : t'.previousStart = t.previousStart
  previousEnd : t'.previousEnd = t.previousEnd
  generation : t'.measurementGeneration = t.measurementGeneration

theorem measure_readings (t : Timing) (now : UInt64) : SameReadings t (measure t now).1 := by
  unfold measure
  split
  · dsimp only
    split
    · obtain ⟨h1, h2, h3, h4⟩ := recordSampleLocked_frame t (now - t.previousStart)
      exact ⟨h1, h2, h3, h4⟩
    · exact ⟨rfl, rfl, rfl, rfl⟩
  · exact ⟨rfl, rfl, rfl, rfl⟩

theorem measure_first (h : t.hasPreviousIteration = false) : measure t now = (t, 0) := by
  simp [measure, h]

theorem measure_next (h : t.hasPreviousIteration = true) (hle : baseline t ≤ now) :
    (measure t now).2 = now - baseline t := by
  have hge : now ≥ baseline t := hle
  unfold baseline at hge ⊢
  simp only [measure, h, if_true]
  exact if_pos hge

theorem initializeSchedule_readings (t : Timing) (now : UInt64) :
    SameReadings t (initializeSchedule t now) ∧ (initializeSchedule t now).deltaMode = t.deltaMode ∧
      statisticsChanged t (initializeSchedule t now) = false := by
  unfold initializeSchedule
  split <;> exact ⟨⟨rfl, rfl, rfl, rfl⟩, rfl, by simp [statisticsChanged]⟩

/-- What the scheduling section does to the measurements, and the delta it
computes. -/
theorem scheduleLocked_readings (t : Timing) (now : UInt64) :
    SameReadings t (scheduleLocked t now).1 ∧
      ∀ delta skipped generation, (scheduleLocked t now).2 = .iterate delta skipped generation →
        generation = t.measurementGeneration ∧
        (t.hasPreviousIteration = false → delta = 0 ∧ statisticsChanged t (scheduleLocked t now).1 = false) ∧
        (t.hasPreviousIteration = true → baseline t ≤ now → delta = now - baseline t) := by
  obtain ⟨hsame, hmode, hstat⟩ := initializeSchedule_readings t now
  generalize hi : initializeSchedule t now = u at hsame hmode hstat
  have hm := measure_readings u now
  simp only [scheduleLocked, hi]
  split
  · exact ⟨hsame, nofun⟩
  · refine ⟨⟨?_, ?_, ?_, ?_⟩, ?_⟩
    · exact hm.hasPrevious.trans hsame.hasPrevious
    · exact hm.previousStart.trans hsame.previousStart
    · exact hm.previousEnd.trans hsame.previousEnd
    · exact hm.generation.trans hsame.generation
    · intro delta skipped generation hit
      cases hit
      refine ⟨hm.generation.trans hsame.generation, ?_, ?_⟩
      · intro hf
        rw [← hsame.hasPrevious] at hf
        rw [measure_first hf]
        exact ⟨rfl, by simpa [statisticsChanged] using hstat⟩
      · intro ht hle
        rw [← hsame.hasPrevious] at ht
        have hbase : baseline u = baseline t := by
          simp [baseline, hmode, hsame.previousStart, hsame.previousEnd]
        rw [← hbase] at hle ⊢
        exact measure_next ht hle

end

/-! ## Runs -/

/-- The deltas of a log: zero for the first iteration since a reset, and from
the start or the end of the iteration before it for every other. -/
structure DeltaLog (l : List TimingEvent) : Prop where
  first : ∀ l₁ now mode delta sampled l₂, l = l₁ ++ .started now mode delta sampled :: l₂ →
    (∀ start, ¬ StartedSinceReset l₁ start) → delta = 0 ∧ sampled = false
  next : ∀ l₁ now mode delta sampled l₂, l = l₁ ++ .started now mode delta sampled :: l₂ →
    ∀ l₀ start mode' delta' sampled' mid, l₁ = l₀ ++ .started start mode' delta' sampled' :: mid → .reset ∉ mid →
      (∀ e ∈ mid, e.isStart = false) →
      ∃ endTime, mid = [.ended endTime] ∧ start ≤ now ∧ endTime ≤ now ∧
        delta = now - (match mode with
          | .StartToStart => start
          | .EndToStart => endTime)

/-- The iteration in progress; `n` resets were made, and it started after the
`k`-th of them. -/
def LoopPc.Pends (n : Nat) (pending : Option (UInt64 × Bool)) : LoopPc → Prop
  | .iterating now generation =>
    ∃ k ≤ n, generation = UInt64.ofNat k ∧ pending = some (now, decide (k = n))
  | .outside | .enter | .sampled _ => pending = none

/-- The machine holds what the measurement of its log says. -/
structure Tracked (m : Machine) (l : List TimingEvent) (t : Measurement) : Prop where
  run : Measurement.empty.run l = some t
  generation : m.timing.measurementGeneration = UInt64.ofNat (resets l)
  hasPrevious : m.timing.hasPreviousIteration = t.previous.isSome
  previous : ∀ start endTime, t.previous = some (start, endTime) →
    m.timing.previousStart = start ∧ m.timing.previousEnd = endTime
  pending : m.loop.Pends (resets l) t.pending

section
variable {m m' : Machine} {l : List TimingEvent} {t t' : Measurement} {a : Action}

theorem run_append_event {e : TimingEvent} (h : Measurement.empty.run l = some t) (he : t.next e = some t') :
    Measurement.empty.run (l ++ [e]) = some t' := by
  rw [Measurement.run_append, h]
  simp [Measurement.run, he]

theorem resets_append (l : List TimingEvent) (e : TimingEvent) :
    resets (l ++ [e]) = resets l + if e.isReset then 1 else 0 := by
  simp [resets, List.countP_append]

/-- A step that measures nothing. -/
theorem Tracked.frame (h : Tracked m l t) (hs : SameReadings m.timing m'.timing)
    (hloop : m'.loop.Pends (resets l) t.pending) : ∃ t', Tracked m' (l ++ Option.toList none) t' := by
  refine ⟨t, ?_, ?_, ?_, ?_, ?_⟩
  · simpa using h.run
  · simpa using hs.generation.trans h.generation
  · exact hs.hasPrevious.trans h.hasPrevious
  · intro start endTime hp
    rw [hs.previousStart, hs.previousEnd]
    exact h.previous start endTime hp
  · simpa using hloop

/-- A reset of the measurements. -/
theorem Tracked.reset (h : Tracked m l t) (hloop : m'.loop = m.loop)
    (hgen : m'.timing.measurementGeneration = m.timing.measurementGeneration + 1)
    (hprev : m'.timing.hasPreviousIteration = false) : ∃ t', Tracked m' (l ++ [.reset]) t' := by
  refine ⟨_, run_append_event h.run rfl, ?_, hprev, nofun, ?_⟩
  · rw [hgen, h.generation, resets_append]
    simp [TimingEvent.isReset, UInt64.ofNat_add]
  · have hp := h.pending
    rw [hloop, resets_append]
    generalize m.loop = pc at hp
    cases pc with
    | iterating now generation =>
      obtain ⟨k, hk, hg, hp⟩ := hp
      refine ⟨k, by omega, hg, ?_⟩
      have hne : k ≠ resets l + 1 := by omega
      simp [hp, TimingEvent.isReset, hne]
    | _ =>
      have hp : t.pending = none := hp
      simp [LoopPc.Pends, hp]

/-- The scheduling section of an iteration. -/
theorem Tracked.started (h : Tracked m l t) {now delta generation : UInt64} {mode : IterationDeltaMode}
    {sampled : Bool} (hloop : m.loop = .sampled now) (hs : SameReadings m.timing m'.timing)
    (hloop' : m'.loop = .iterating now generation) (hg : generation = m.timing.measurementGeneration) :
    ∃ t', Tracked m' (l ++ [.started now mode delta sampled]) t' := by
  have hp : t.pending = none := by
    have := h.pending
    rwa [hloop] at this
  have hnext : t.next (.started now mode delta sampled) = some ⟨t.previous, some (now, true)⟩ := by
    simp [Measurement.next, hp]
  have hresets : resets (l ++ [.started now mode delta sampled]) = resets l := by
    simp [resets_append, TimingEvent.isReset]
  refine ⟨_, run_append_event h.run hnext, ?_, hs.hasPrevious.trans h.hasPrevious, ?_, ?_⟩
  · rw [hresets]
    exact hs.generation.trans h.generation
  · intro start endTime hprev
    rw [hs.previousStart, hs.previousEnd]
    exact h.previous start endTime hprev
  · rw [hloop', hresets]
    exact ⟨resets l, Nat.le_refl _, hg.trans h.generation, by simp⟩

/-- The completing section, which stores nothing after a reset. -/
theorem Tracked.ended (h : Tracked m l t) {now generation endTime : UInt64} (hn : resets l < 2 ^ 64)
    (hloop : m.loop = .iterating now generation)
    (htiming : m'.timing = completeLocked m.timing generation now endTime) (hloop' : m'.loop = .outside) :
    ∃ t', Tracked m' (l ++ [.ended endTime]) t' := by
  have hp := h.pending
  rw [hloop] at hp
  obtain ⟨k, hk, hg, hp⟩ := hp
  have hresets : resets (l ++ [.ended endTime]) = resets l := by
    simp [resets_append, TimingEvent.isReset]
  have hiff : generation = m.timing.measurementGeneration ↔ k = resets l := by
    rw [hg, h.generation]
    constructor
    · intro he
      have := congrArg UInt64.toNat he
      rw [UInt64.toNat_ofNat', UInt64.toNat_ofNat', Nat.mod_eq_of_lt (by omega), Nat.mod_eq_of_lt (by omega)] at this
      exact this
    · rintro rfl
      rfl
  by_cases hk' : k = resets l
  · have hnext : t.next (.ended endTime) = some ⟨some (now, endTime), none⟩ := by
      simp [Measurement.next, hp, hk']
    rw [completeLocked, if_pos (hiff.2 hk')] at htiming
    refine ⟨_, run_append_event h.run hnext, ?_, ?_, ?_, ?_⟩
    · rw [htiming, hresets]
      exact h.generation
    · rw [htiming]
      rfl
    · rintro start end' ⟨⟩
      rw [htiming]
      exact ⟨rfl, rfl⟩
    · rw [hloop']
      rfl
  · -- A reset came between: the iteration is forgotten.
    have hnext : t.next (.ended endTime) = some ⟨t.previous, none⟩ := by
      simp [Measurement.next, hp, hk']
    rw [completeLocked, if_neg (mt hiff.1 hk')] at htiming
    refine ⟨_, run_append_event h.run hnext, ?_, ?_, ?_, ?_⟩
    · rw [htiming, hresets]
      exact h.generation
    · rw [htiming]
      exact h.hasPrevious
    · rw [htiming]
      exact h.previous
    · rw [hloop']
      rfl

theorem Tracked.step (h : Tracked m l t) (hn : resets l < 2 ^ 64) (hs : step m a = some m') :
    ∃ t', Tracked m' (l ++ (timingEvent m a).toList) t' := by
  have hsame : SameReadings m.timing m.timing := ⟨rfl, rfl, rfl, rfl⟩
  have hpend := h.pending
  cases a with
  | wakeForWork | bumpRead =>
    cases hs
    refine h.frame ?_ ?_
    · exact hsame
    · exact hpend
  | setIterationPeriod | setDesiredIterationPeriod | setIterationSampleCount =>
    cases hs
    refine h.frame ?_ ?_
    · exact ⟨rfl, rfl, rfl, rfl⟩
    · exact hpend
  | callOnLoop =>
    simp only [Precision.step] at hs
    split at hs
    · rename_i hloop
      split at hs <;> cases hs <;> refine h.frame ?_ ?_
      · exact hsame
      · exact hpend
      · exact hsame
      · rwa [hloop] at hpend
    · cases hs
  | readClock now =>
    simp only [Precision.step] at hs
    split at hs <;> cases hs
    rename_i hloop
    refine h.frame ?_ ?_
    · exact hsame
    · rwa [hloop] at hpend
  | bumpStore i =>
    obtain ⟨now, -, rfl⟩ := Option.map_eq_some_iff.1 hs
    refine h.frame ?_ ?_
    · exact ⟨rfl, rfl, rfl, rfl⟩
    · exact hpend
  | resetSchedule =>
    cases hs
    exact h.reset rfl rfl rfl
  | setIterationDeltaMode mode =>
    cases hs
    by_cases hmode : m.timing.deltaMode ≠ mode
    · have hreset : setIterationDeltaMode m.timing mode =
          resetMeasurementsLocked { m.timing with deltaMode := mode } := if_pos hmode
      simp only [timingEvent, if_pos hmode, hreset]
      exact h.reset rfl rfl rfl
    · have hkeep : setIterationDeltaMode m.timing mode = m.timing := if_neg hmode
      simp only [timingEvent, if_neg hmode, hkeep]
      refine h.frame ?_ ?_
      · exact hsame
      · exact hpend
  | schedule =>
    simp only [Precision.step] at hs
    split at hs
    · rename_i now hloop
      cases hs
      obtain ⟨hread, hit⟩ := scheduleLocked_readings m.timing now
      rw [hloop] at hpend
      simp only [timingEvent, hloop, runSchedule]
      split
      · rename_i u remaining hu
        rw [hu] at hread ⊢
        refine h.frame ?_ ?_
        · exact hread
        · exact hpend
      · rename_i u delta skipped generation hu
        rw [hu] at hread hit ⊢
        refine h.started hloop ?_ ?_ (hit _ _ _ rfl).1
        · exact hread
        · rfl
    · cases hs
  | complete endTime =>
    simp only [Precision.step] at hs
    split at hs
    · rename_i now generation hloop
      cases hs
      simp only [timingEvent, hloop]
      refine h.ended hn hloop ?_ ?_
      · rfl
      · rfl
    · cases hs

theorem mem_readings {e : TimingEvent} {r : UInt64} (he : e ∈ l) (hr : e.reading? = some r) : r ∈ readings l :=
  List.mem_filterMap.2 ⟨e, he, hr⟩

/-- One more iteration. -/
theorem DeltaLog.started (h : DeltaLog l) (ht : Tracked m l t) {now delta skipped generation : UInt64} {u : Timing}
    (hloop : m.loop = .sampled now) (hclock : ∀ r ∈ readings l, r ≤ now)
    (hu : scheduleLocked m.timing now = (u, .iterate delta skipped generation)) :
    DeltaLog (l ++ [.started now m.timing.deltaMode delta (statisticsChanged m.timing u)]) := by
  obtain ⟨-, hit⟩ := scheduleLocked_readings m.timing now
  rw [hu] at hit
  obtain ⟨-, hfirst, hnext⟩ := hit _ _ _ rfl
  obtain ⟨hprev, -⟩ := Measurement.run_remembers ht.run
  refine ⟨?_, ?_⟩
  · intro l₁ now' mode delta' sampled l₂ hl hno
    rcases System.split_append (e := some _) hl with ⟨l₃, hl, -⟩ | ⟨he, rfl, -⟩
    · exact h.first l₁ now' mode delta' sampled l₃ hl hno
    · cases he
      apply hfirst
      rw [ht.hasPrevious]
      cases hp : t.previous with
      | none => rfl
      | some p => exact absurd (hprev p.1 p.2 hp).1 (hno p.1)
  · intro l₁ now' mode delta' sampled l₂ hl l₀ start mode₀ delta₀ sampled₀ mid hl₁ hreset hstart
    rcases System.split_append (e := some _) hl with ⟨l₃, hl, -⟩ | ⟨he, rfl, -⟩
    · exact h.next l₁ now' mode delta' sampled l₃ hl l₀ start mode₀ delta₀ sampled₀ mid hl₁ hreset hstart
    · cases he
      have hrun := ht.run
      rw [hl₁] at hrun
      rcases Measurement.run_started hrun hreset hstart with ⟨-, hp⟩ | ⟨endTime, rfl, hp, -⟩
      · -- The worker is not in an iteration when it schedules the next one.
        have hnone := ht.pending
        rw [hloop] at hnone
        rw [show t.pending = none from hnone] at hp
        cases hp
      · obtain ⟨hs, he⟩ := ht.previous start endTime hp
        have hstart : start ≤ now := hclock start (mem_readings (e := .started start mode₀ delta₀ sampled₀)
          (by simp [hl₁]) rfl)
        have hend : endTime ≤ now := hclock endTime (mem_readings (e := .ended endTime) (by simp [hl₁]) rfl)
        have hbase : baseline m.timing = match m.timing.deltaMode with
            | .StartToStart => start
            | .EndToStart => endTime := by
          rw [baseline, hs, he]
        refine ⟨endTime, rfl, hstart, hend, ?_⟩
        rw [← hbase]
        apply hnext
        · rw [ht.hasPrevious, hp]
          rfl
        · rw [hbase]
          split
          · exact hstart
          · exact hend

theorem DeltaLog.frame (h : DeltaLog l) {e : Option TimingEvent} (he : ∀ x, e = some x → x.isStart = false) :
    DeltaLog (l ++ e.toList) := by
  refine ⟨?_, ?_⟩
  · intro l₁ now mode delta sampled l₂ hl hno
    rcases System.split_append hl with ⟨l₃, hl, -⟩ | ⟨hx, -, -⟩
    · exact h.first l₁ now mode delta sampled l₃ hl hno
    · cases he _ hx
  · intro l₁ now mode delta sampled l₂ hl
    rcases System.split_append hl with ⟨l₃, hl, -⟩ | ⟨hx, -, -⟩
    · exact h.next l₁ now mode delta sampled l₃ hl
    · cases he _ hx

theorem DeltaLog.step (h : DeltaLog l) (ht : Tracked m l t)
    (hclock : (readings (l ++ (timingEvent m a).toList)).Pairwise (· ≤ ·)) :
    DeltaLog (l ++ (timingEvent m a).toList) := by
  cases a with
  | schedule =>
    simp only [timingEvent] at hclock ⊢
    split at hclock <;> rename_i hloop
    · split at hclock <;> rename_i hu
      · refine h.started ht hloop (fun r hr => ?_) hu
        simp only [readings, List.filterMap_append, List.pairwise_append] at hclock
        exact hclock.2.2 r hr _ (by simp [TimingEvent.reading?])
      · exact h.frame nofun
    · exact h.frame nofun
  | setIterationDeltaMode mode =>
    refine h.frame ?_
    intro x hx
    simp only [timingEvent] at hx
    split at hx <;> cases hx
    rfl
  | complete endTime =>
    refine h.frame ?_
    intro x hx
    simp only [timingEvent] at hx
    split at hx <;> cases hx
    rfl
  | resetSchedule => exact h.frame (by rintro x ⟨⟩; rfl)
  | _ => exact h.frame nofun

end

/-- No delta spans a reset of the measurements. -/
theorem delta_log (x : Machine × List TimingEvent) (h : measured.Reachable x)
    (hclock : (readings x.2).Pairwise (· ≤ ·)) (hgen : resets x.2 < 2 ^ 64) : DeltaLog x.2 := by
  have hinv : (readings x.2).Pairwise (· ≤ ·) → resets x.2 < 2 ^ 64 → DeltaLog x.2 ∧ ∃ t, Tracked x.1 x.2 t := by
    refine h.invariant (I := fun x => (readings x.2).Pairwise (· ≤ ·) → resets x.2 < 2 ^ 64 →
      DeltaLog x.2 ∧ ∃ t, Tracked x.1 x.2 t) (fun x hx _ _ => ?_) fun x a y hi _ hs hc hg => ?_
    · obtain ⟨hm, hl⟩ := hx
      obtain ⟨m, l⟩ := x
      cases hm
      cases hl
      refine ⟨⟨?_, ?_⟩, .empty, rfl, rfl, rfl, nofun, rfl⟩
      · intro l₁ now mode delta sampled l₂ hl
        simp at hl
      · intro l₁ now mode delta sampled l₂ hl
        simp at hl
    · obtain ⟨m, l⟩ := x
      obtain ⟨m', l'⟩ := y
      obtain ⟨hst, he⟩ := System.logged_step.1 hs
      simp only at he
      subst he
      have hc' : (readings l).Pairwise (· ≤ ·) := by
        simp only [readings, List.filterMap_append, List.pairwise_append] at hc
        exact hc.1
      have hg' : resets l < 2 ^ 64 := by
        simp only [resets, List.countP_append] at hg
        exact lt_of_le_of_lt (Nat.le_add_right _ _) hg
      obtain ⟨hlog, t, ht⟩ := hi hc' hg'
      exact ⟨hlog.step ht hc, ht.step hg' hst⟩
  exact (hinv hclock hgen).1

/-- The mode changes inside the first of three iterations. -/
def changedInside : List Action :=
  [.callOnLoop, .readClock 5, .schedule, .setIterationDeltaMode .EndToStart, .complete 6, .callOnLoop, .readClock 9,
    .schedule, .complete 11, .callOnLoop, .readClock 20, .schedule]

/-- Its start is forgotten, and the third counts from the end of the second. -/
theorem deltas_after_change : ∃ x, measured.Reachable x ∧ DeltaLog x.2 ∧
    x.2 = [.started 5 .StartToStart 0 false, .reset, .ended 6, .started 9 .EndToStart 0 false, .ended 11,
      .started 20 .EndToStart 9 true] := by
  have hrun : (measured.replay (fresh {}, []) changedInside).map (fun x => x.2) =
      some [.started 5 .StartToStart 0 false, .reset, .ended 6, .started 9 .EndToStart 0 false, .ended 11,
        .started 20 .EndToStart 9 true] := by
    decide
  obtain ⟨x, hs, hl⟩ := Option.map_eq_some_iff.1 hrun
  have hinit : measured.init (fresh {}, []) := ⟨rfl, rfl⟩
  have hr := System.reachable_of_replay hinit hs
  exact ⟨x, hr, delta_log x hr (by rw [hl]; decide) (by rw [hl]; decide), hl⟩

end ESPressio.Precision
