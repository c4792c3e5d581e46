import Mathlib.Tactic.Ring
import ESPressioThreads.Lib.Grid
import ESPressioThreads.Precision.Machine
/-!
# The deadline grid

An iteration at a reading `n` moves the deadline to the first grid point after
`n` and reports the slots between as skipped. So over a run that nothing
resets, the deadline stays on the grid of the schedule's base, and executed
and skipped slots add up to all slots up to the last reading.
-/

namespace ESPressio.Precision

open Transition

/-! ## Word arithmetic -/

theorem maximum_toNat : maximum.toNat = 2 ^ 64 - 1 := rfl

theorem le_maximum (x : UInt64) : x.toNat ≤ maximum.toNat := by
  have := x.toNat_lt
  rw [maximum_toNat]; omega

theorem addSaturated_toNat (a b : UInt64) : (addSaturated a b).toNat = min (a.toNat + b.toNat) (2 ^ 64 - 1) := by
  have hs : (maximum - a).toNat = 2 ^ 64 - 1 - a.toNat := by
    rw [UInt64.toNat_sub_of_le _ _ (UInt64.le_iff_toNat_le.2 (le_maximum a)), maximum_toNat]
  have ha := a.toNat_lt
  unfold addSaturated
  split
  · rename_i h
    have h' := UInt64.lt_iff_toNat_lt.1 h
    rw [hs] at h'
    rw [maximum_toNat]; omega
  · rename_i h
    rw [gt_iff_lt, UInt64.lt_iff_toNat_lt, hs] at h
    rw [UInt64.toNat_add]; omega

/-- The advance is the integer formula, clamped once: the three saturations of
the source (periods, product, sum) never disagree with it. -/
theorem advance_toNat {period now next : UInt64} (hp : 0 < period) (hle : next ≤ now) :
    (advance period now next).1.toNat = min (Grid.next period.toNat next.toNat now.toNat) (2 ^ 64 - 1) ∧
      (advance period now next).2.toNat = (now.toNat - next.toNat) / period.toNat := by
  have hp' : 0 < period.toNat := UInt64.lt_iff_toNat_lt.1 hp
  have hn := now.toNat_lt
  have hq : ((now - next) / period).toNat = (now.toNat - next.toNat) / period.toNat := by
    rw [UInt64.toNat_div, UInt64.toNat_sub_of_le _ _ hle]
  refine ⟨?_, hq⟩
  simp only [advance, addSaturated_toNat, Grid.next]
  generalize (now - next) / period = e at hq ⊢
  rw [← hq]
  have hmul : e.toNat * period.toNat ≤ now.toNat := by
    rw [hq]; exact (Nat.div_mul_le_self _ _).trans (Nat.sub_le _ _)
  by_cases he : e = maximum
  · -- all 2^64 - 1 periods elapsed, so the period is 1 and the sum saturates
    rw [he, maximum_toNat] at hmul
    rw [if_pos he, he, maximum_toNat]
    have hone : period = 1 := UInt64.toNat_inj.1 (by simp only [UInt64.toNat_one]; omega)
    subst hone
    rw [if_neg (by decide), show (maximum * 1).toNat = 2 ^ 64 - 1 from rfl]
    simp only [UInt64.toNat_one]
    omega
  · have he' : e.toNat < 2 ^ 64 - 1 := by
      have := le_maximum e
      have hne : e.toNat ≠ maximum.toNat := fun h => he (UInt64.toNat_inj.1 h)
      rw [maximum_toNat] at this hne; omega
    have hk : (e + 1).toNat = e.toNat + 1 := by rw [UInt64.toNat_add, UInt64.toNat_one]; omega
    have hiff : e + 1 > maximum / period ↔ 2 ^ 64 - 1 < (e.toNat + 1) * period.toNat := by
      rw [gt_iff_lt, UInt64.lt_iff_toNat_lt, UInt64.toNat_div, hk, maximum_toNat, Nat.div_lt_iff_lt_mul hp']
    rw [if_neg he]
    split
    · rename_i h
      have := hiff.1 h
      rw [maximum_toNat]; omega
    · rename_i h
      have hle' := Nat.le_of_not_lt fun hlt => h (hiff.2 hlt)
      rw [UInt64.toNat_mul, hk, Nat.mod_eq_of_lt (by omega)]

/-! ## The scheduling section -/

/-- The deadline the scheduling section compares its reading with. -/
def deadlineAt (t : Timing) (now : UInt64) : UInt64 := (initializeSchedule t now).nextIteration

theorem initializeSchedule_period (t : Timing) (now : UInt64) :
    (initializeSchedule t now).iterationPeriod = t.iterationPeriod := by
  unfold initializeSchedule; split <;> rfl

theorem initializeSchedule_initialized (t : Timing) (now : UInt64) :
    (initializeSchedule t now).scheduleInitialized = true := by
  unfold initializeSchedule
  split
  · assumption
  · rfl

/-- Measuring touches neither the schedule nor the period. -/
theorem measure_schedule (t : Timing) (now : UInt64) :
    (measure t now).1.scheduleInitialized = t.scheduleInitialized ∧
      (measure t now).1.iterationPeriod = t.iterationPeriod ∧
      (measure t now).1.nextIteration = t.nextIteration := by
  unfold measure
  split
  · dsimp only
    split
    · unfold recordSampleLocked; split <;> exact ⟨rfl, rfl, rfl⟩
    · exact ⟨rfl, rfl, rfl⟩
  · exact ⟨rfl, rfl, rfl⟩

/-- Before the deadline the section only waits. -/
theorem scheduleLocked_wait {t : Timing} {now : UInt64} (hp : 0 < t.iterationPeriod) (h : now < deadlineAt t now) :
    scheduleLocked t now = (initializeSchedule t now, .wait (deadlineAt t now - now)) := by
  have hp' : (initializeSchedule t now).iterationPeriod > 0 := by rw [initializeSchedule_period]; exact hp
  rw [scheduleLocked, if_pos ⟨hp', h⟩]
  rfl

/-- At or past the deadline it runs an iteration and advances the deadline. -/
theorem scheduleLocked_iterate {t : Timing} {now : UInt64} (hp : 0 < t.iterationPeriod)
    (h : deadlineAt t now ≤ now) :
    ∃ t' delta generation, scheduleLocked t now =
        (t', .iterate delta (advance t.iterationPeriod now (deadlineAt t now)).2 generation) ∧
      t'.scheduleInitialized = true ∧ t'.iterationPeriod = t.iterationPeriod ∧
      t'.nextIteration = (advance t.iterationPeriod now (deadlineAt t now)).1 := by
  have hm := measure_schedule (initializeSchedule t now) now
  rw [initializeSchedule_period, initializeSchedule_initialized] at hm
  have hnot : ¬ ((initializeSchedule t now).iterationPeriod > 0 ∧ now < (initializeSchedule t now).nextIteration) :=
    fun hc => absurd (UInt64.lt_iff_toNat_lt.1 hc.2) (Nat.not_lt.2 (UInt64.le_iff_toNat_le.1 h))
  have hpos : t.iterationPeriod > 0 := hp
  simp only [scheduleLocked, if_neg hnot, hm.2.1, hm.2.2, if_pos hpos]
  exact ⟨_, _, _, rfl, hm.1, rfl, rfl⟩

/-! ## Runs that nothing resets -/

/-- The deadline arithmetic of an iteration at `now` stays below `2^64`. -/
def NoSaturation (t : Timing) (now : UInt64) : Prop :=
  deadlineAt t now ≤ now →
    Grid.next t.iterationPeriod.toNat (deadlineAt t now).toNat now.toNat < 2 ^ 64

instance (t : Timing) (now : UInt64) : Decidable (NoSaturation t now) :=
  inferInstanceAs (Decidable (_ → _))

/-- `p` holds of the reading the worker is about to schedule at. -/
def LoopPc.SampledMeets (p : UInt64 → Prop) : LoopPc → Prop
  | .sampled now => p now
  | _ => True

instance (p : UInt64 → Prop) [DecidablePred p] : ∀ l, Decidable (LoopPc.SampledMeets p l)
  | .sampled now => inferInstanceAs (Decidable (p now))
  | .outside | .enter | .iterating _ _ => inferInstanceAs (Decidable True)

/-- No reset, no `Bump`, no period change and no saturation. -/
def Undisturbed (m : Machine) : Action → Prop
  | .resetSchedule | .bumpStore _ | .setIterationPeriod _ => False
  | .schedule => m.loop.SampledMeets (NoSaturation m.timing)
  | _ => True

instance (m : Machine) : ∀ a, Decidable (Undisturbed m a)
  | .resetSchedule | .bumpStore _ | .setIterationPeriod _ => inferInstanceAs (Decidable False)
  | .schedule => inferInstanceAs (Decidable (m.loop.SampledMeets (NoSaturation m.timing)))
  | .wakeForWork | .callOnLoop | .readClock _ | .complete _ | .bumpRead _ | .setDesiredIterationPeriod _
  | .setIterationDeltaMode _ | .setIterationSampleCount _ => inferInstanceAs (Decidable True)

/-- Slots executed or reported skipped: `1 + skippedIterations` each. -/
def slots (log : List Iteration) : Nat := (log.map fun it => 1 + it.skipped.toNat).sum

theorem slots_append (l : List Iteration) (it : Iteration) : slots (l ++ [it]) = slots l + 1 + it.skipped.toNat := by
  simp [slots]; omega

/-- What one iteration did, on the grid of base `b` and period `P`, when the
iterations up to it took `k` slots. -/
structure OnGrid (b P k : Nat) (it : Iteration) : Prop where
  base_le : b ≤ it.deadline.toNat
  due : it.deadline ≤ it.reading
  deadline_on : Grid.On b P it.deadline.toNat
  next_eq : it.nextDeadline.toNat = b + k * P
  later : it.reading.toNat < it.nextDeadline.toNat
  within : it.nextDeadline.toNat ≤ it.reading.toNat + P

/-- The schedule of a run with the period `P`. -/
structure Drift (P : UInt64) (m : Machine) : Prop where
  period : m.timing.iterationPeriod = P
  unset : m.timing.scheduleInitialized = false → m.base = none ∧ m.log = []
  deadline : m.timing.scheduleInitialized = true →
    ∃ b, m.base = some b ∧ m.timing.nextIteration.toNat = b.toNat + slots m.log * P.toNat
  each : ∀ b, m.base = some b → ∀ pre it post, m.log = pre ++ it :: post →
    OnGrid b.toNat P.toNat (slots (pre ++ [it])) it

variable {P : UInt64} {m m' : Machine}

theorem drift_fresh (t : Timing) : Drift t.iterationPeriod (fresh t) where
  period := rfl
  unset _ := ⟨rfl, rfl⟩
  deadline h := by cases h
  each b h := by cases h

/-- A step that leaves schedule and history alone keeps `Drift`. -/
theorem Drift.frame (h : Drift P m) (hp : m'.timing.iterationPeriod = m.timing.iterationPeriod)
    (hs : m'.timing.scheduleInitialized = m.timing.scheduleInitialized)
    (hn : m'.timing.nextIteration = m.timing.nextIteration) (hb : m'.base = m.base) (hl : m'.log = m.log) :
    Drift P m' where
  period := hp.trans h.period
  unset hu := by rw [hb, hl]; exact h.unset (hs ▸ hu)
  deadline hi := by rw [hb, hl, hn]; exact h.deadline (hs ▸ hi)
  each := by rw [hb, hl]; exact h.each

theorem append_singleton_split {α : Type*} {l pre post : List α} {x y : α} (h : l ++ [x] = pre ++ y :: post) :
    (l = pre ∧ x = y ∧ post = []) ∨ ∃ post', post = post' ++ [x] ∧ l = pre ++ y :: post' := by
  rcases List.eq_nil_or_concat post with rfl | ⟨post', z, rfl⟩
  · obtain ⟨h1, h2⟩ := List.append_inj' h rfl
    exact .inl ⟨h1, by simpa using h2, rfl⟩
  · rw [List.concat_eq_append, ← List.cons_append, ← List.append_assoc] at h
    obtain ⟨h1, h2⟩ := List.append_inj' h rfl
    exact .inr ⟨post', by simp_all, h1⟩

/-- The scheduling section at a reading past the deadline: one more iteration,
on the grid of the base. -/
theorem Drift.iterate (h : Drift P m) (hP : 0 < P) {now : UInt64} (hdue : deadlineAt m.timing now ≤ now)
    (hsat : NoSaturation m.timing now) : Drift P (runSchedule m now) := by
  have hper := h.period
  obtain ⟨t', delta, generation, hrun, hinit, hper', hnext⟩ := scheduleLocked_iterate (hper ▸ hP) hdue
  obtain ⟨hadv, hskip⟩ := advance_toNat (hper ▸ hP) hdue
  rw [hper] at hadv hskip hnext hrun
  have hg : Grid.next P.toNat (deadlineAt m.timing now).toNat now.toNat < 2 ^ 64 := by
    have := hsat hdue; rwa [hper] at this
  have hnext' : t'.nextIteration.toNat = Grid.next P.toNat (deadlineAt m.timing now).toNat now.toNat := by
    rw [hnext, hadv]; omega
  -- the deadline found is the base plus the slots already accounted for
  obtain ⟨b, hbase, hdl⟩ : ∃ b, (if m.timing.scheduleInitialized then m.base else some now) = some b ∧
      (deadlineAt m.timing now).toNat = b.toNat + slots m.log * P.toNat := by
    by_cases hi : m.timing.scheduleInitialized = true
    · obtain ⟨b, hb, hd⟩ := h.deadline hi
      exact ⟨b, by simp [hi, hb], by simp [deadlineAt, initializeSchedule, hi, hd]⟩
    · rw [Bool.not_eq_true] at hi
      exact ⟨now, by simp [hi], by simp [deadlineAt, initializeSchedule, hi, (h.unset hi).2, slots]⟩
  have heq : runSchedule m now = { m with
      timing := t'
      base := some b
      loop := .iterating now generation
      log := m.log ++ [⟨now, deadlineAt m.timing now, t'.nextIteration,
        (advance P now (deadlineAt m.timing now)).2⟩] } := by
    simp only [runSchedule, hrun, hbase]; rfl
  have hslots : (deadlineAt m.timing now).toNat +
      (((now.toNat - (deadlineAt m.timing now).toNat) / P.toNat) + 1) * P.toNat =
      b.toNat + (slots m.log + 1 + (advance P now (deadlineAt m.timing now)).2.toNat) * P.toNat := by
    rw [hdl, hskip, hdl]; ring
  rw [heq]
  refine ⟨hper'.trans hper, fun hf => absurd hf (by simp [hinit]), fun _ => ⟨b, rfl, ?_⟩, ?_⟩
  · rw [slots_append, hnext', ← hslots]; rfl
  · intro b' hb' pre it post hlog
    simp only [Option.some.injEq] at hb'
    subst hb'
    rcases append_singleton_split hlog with ⟨rfl, rfl, -⟩ | ⟨post', -, hpre⟩
    · have hP' : 0 < P.toNat := UInt64.lt_iff_toNat_lt.1 hP
      refine ⟨by rw [hdl]; omega, hdue, ⟨slots m.log, hdl⟩, ?_, ?_, ?_⟩
      · rw [slots_append, hnext', ← hslots]; rfl
      · rw [hnext']; exact Grid.lt_next hP'
      · rw [hnext']; exact Grid.next_le (UInt64.le_iff_toNat_le.1 hdue)
    · -- an earlier iteration; the base was already set
      have hi : m.timing.scheduleInitialized = true := by
        by_contra hi
        rw [Bool.not_eq_true] at hi
        rw [(h.unset hi).2] at hpre
        simp at hpre
      simp only [hi, if_true] at hbase
      exact h.each b hbase pre it post' hpre

theorem Drift.wait (h : Drift P m) (hP : 0 < P) {now : UInt64} (hw : now < deadlineAt m.timing now) :
    Drift P (runSchedule m now) := by
  have hi : m.timing.scheduleInitialized = true := by
    by_contra hi
    simp only [deadlineAt, initializeSchedule, hi, if_false] at hw
    exact absurd (UInt64.lt_iff_toNat_lt.1 hw) (Nat.lt_irrefl _)
  have hinit : initializeSchedule m.timing now = m.timing := by simp [initializeSchedule, hi]
  have heq : runSchedule m now = { m with loop := .outside } := by
    simp only [runSchedule, scheduleLocked_wait (h.period ▸ hP) hw, hinit, hi, if_true]
  rw [heq]
  exact h.frame rfl rfl rfl rfl rfl

theorem drift_step (hP : 0 < P) {a : Action} (h : Drift P m) (hc : Undisturbed m a) (hs : step m a = some m') :
    Drift P m' := by
  cases a with
  | resetSchedule | bumpStore | setIterationPeriod => exact hc.elim
  | wakeForWork | bumpRead | setDesiredIterationPeriod | setIterationSampleCount =>
    cases hs; exact h.frame rfl rfl rfl rfl rfl
  | setIterationDeltaMode mode =>
    cases hs
    refine h.frame ?_ ?_ ?_ rfl rfl <;> simp only [setIterationDeltaMode] <;> split <;> rfl
  | callOnLoop =>
    simp only [step] at hs
    split at hs
    · split at hs <;> cases hs <;> exact h.frame rfl rfl rfl rfl rfl
    · cases hs
  | readClock now =>
    simp only [step] at hs
    split at hs <;> cases hs
    exact h.frame rfl rfl rfl rfl rfl
  | schedule =>
    simp only [step] at hs
    split at hs
    · rename_i now hl
      cases hs
      -- A reading before the deadline changes nothing but the loop.
      rcases UInt64.lt_or_le now (deadlineAt m.timing now) with hw | hdue
      · exact h.wait hP hw
      · simp only [Undisturbed, hl] at hc
        exact h.iterate hP hdue hc
    · cases hs
  | complete endTime =>
    simp only [step] at hs
    split at hs
    · cases hs
      refine h.frame ?_ ?_ ?_ rfl rfl <;> simp only [completeLocked] <;> split <;> rfl
    · cases hs

theorem drift_reachable {t : Timing} (hP : 0 < t.iterationPeriod)
    (h : (system t).ReachableWhen Undisturbed m) : Drift t.iterationPeriod m :=
  h.invariant (by rintro _ rfl; exact drift_fresh t) fun _ _ _ hi hc hs => drift_step hP hi hc hs

/-! ## Main theorem -/

/-- With a positive period `P`, in every run without a reset, a `Bump`, a
period change or saturation, and with the schedule initialised at `b`: the
stored deadline is `b + m * P`; no iteration runs before its deadline; the
deadline after an iteration at `n` is the first grid point after `n`; and the
slots executed or reported skipped so far are `(n - b) / P + 1`. A work wake
leaves the schedule and the log as they are. -/
theorem deadlines_without_drift (t : Timing) (hP : 0 < t.iterationPeriod) {m : Machine}
    (h : (system t).ReachableWhen Undisturbed m) :
    (m.timing.scheduleInitialized = true → ∃ b, m.base = some b ∧
      Grid.On b.toNat t.iterationPeriod.toNat m.timing.nextIteration.toNat) ∧
    (∀ pre it post, m.log = pre ++ it :: post → ∃ b, m.base = some b ∧
      it.deadline ≤ it.reading ∧
      Grid.On b.toNat t.iterationPeriod.toNat it.deadline.toNat ∧
      Grid.On b.toNat t.iterationPeriod.toNat it.nextDeadline.toNat ∧
      it.reading.toNat < it.nextDeadline.toNat ∧
      (∀ x, Grid.On b.toNat t.iterationPeriod.toNat x → it.reading.toNat < x → it.nextDeadline.toNat ≤ x) ∧
      slots (pre ++ [it]) = (it.reading.toNat - b.toNat) / t.iterationPeriod.toNat + 1) ∧
    ∀ m', m.workWakeRequested = true → step m .callOnLoop = some m' →
      m'.timing = m.timing ∧ m'.base = m.base ∧ m'.log = m.log := by
  have hd := drift_reachable hP h
  refine ⟨fun hi => ?_, fun pre it post hlog => ?_, fun m' hw hs => ?_⟩
  · obtain ⟨b, hb, hn⟩ := hd.deadline hi
    exact ⟨b, hb, _, hn⟩
  -- A schedule that was not initialised has logged nothing.
  · obtain ⟨b, hb, -⟩ := hd.deadline (by
      by_contra hi
      rw [Bool.not_eq_true] at hi
      rw [(hd.unset hi).2] at hlog
      simp at hlog)
    have hg := hd.each b hb pre it post hlog
    have hon : Grid.On b.toNat t.iterationPeriod.toNat it.nextDeadline.toNat := ⟨_, hg.next_eq⟩
    refine ⟨b, hb, hg.due, hg.deadline_on, hon, hg.later, Grid.least_of_le hon hg.within, ?_⟩
    have hbn := hg.base_le.trans (UInt64.le_iff_toNat_le.1 hg.due)
    have hlt := hg.later
    have hle := hg.within
    rw [hg.next_eq] at hlt hle
    exact (Grid.slots_eq hbn hlt hle).symm
  · simp only [step, hw, if_true] at hs
    split at hs
    · cases hs; exact ⟨rfl, rfl, rfl⟩
    · cases hs

/-- Period 10: a first reading at 5, a work wake, then a reading at 37 that
skips two slots. -/
def lateRun : Option Machine :=
  (system { iterationPeriod := 10 }).replayWhen Undisturbed (fresh { iterationPeriod := 10 })
    [.callOnLoop, .readClock 5, .schedule, .complete 6, .wakeForWork, .callOnLoop,
      .callOnLoop, .readClock 37, .schedule, .complete 38]

theorem lateRun_slots : ∃ m, lateRun = some m ∧ m.log = [⟨5, 5, 15, 0⟩, ⟨37, 15, 45, 2⟩] ∧
    Grid.On 5 10 m.timing.nextIteration.toNat ∧ slots m.log = (37 - 5) / 10 + 1 := by
  obtain ⟨m, hm⟩ : ∃ m, lateRun = some m := Option.isSome_iff_exists.1 (by rfl)
  have hlog : m.log = [⟨5, 5, 15, 0⟩, ⟨37, 15, 45, 2⟩] := by
    have : lateRun.map Machine.log = some [⟨5, 5, 15, 0⟩, ⟨37, 15, 45, 2⟩] := by rfl
    simpa [hm] using this
  have hbase : m.base = some 5 ∧ m.timing.scheduleInitialized = true := by
    have : lateRun.map (fun m => (m.base, m.timing.scheduleInitialized)) = some (some 5, true) := by rfl
    simpa [hm] using this
  obtain ⟨hg, hl, -⟩ := deadlines_without_drift { iterationPeriod := 10 } (by decide)
    (System.reachableWhen_of_replayWhen rfl hm)
  obtain ⟨b, hb, hon⟩ := hg hbase.2
  obtain ⟨b', hb', -, -, -, -, -, hs⟩ := hl [⟨5, 5, 15, 0⟩] ⟨37, 15, 45, 2⟩ [] hlog
  rw [hbase.1, Option.some.injEq] at hb hb'
  subst hb hb'
  exact ⟨m, hm, hlog, hon, by rw [hlog]; exact hs⟩

end ESPressio.Precision
