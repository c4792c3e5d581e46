import ESPressioThreads.ThreadSafe.Machine
/-!
# The probe protocol

`IsLockedRead` and `IsLockedWrite` take the lock and give it back before they
return `false`, so the `Release` that their callers owe unlocks what they do
not hold. Without such a probe, whoever is in a section holds the lock, and
writers exclude everybody.
-/

namespace ESPressio.ThreadSafe

open ReadWriteLock Transition

variable {T : Type}

/-- The method of a call that has taken the lock and not given it back. -/
def Pc.locked : Pc T → Option (Method T)
  | .section c | .store c _ _ | .unlock c _ _ => some c
  | .idle | .acquire _ | .onChange _ _ _ _ | .probed _ | .returned _ _ => none

/-- The method of a call in a read or write section: a caller of a probe is in
one from the `false` on, until its `Release`. -/
def Pc.inSection : Pc T → Option (Method T)
  | .probed c => some c
  | pc => pc.locked

/-- No write section overlaps another section. -/
def Exclusion (m : Machine T) : Prop :=
  ∀ i j c d, i ≠ j → (m.ops i).inSection = some c → (m.ops j).inSection = some d → c.writes = false

/-- Every `Release` unlocked a lock that its caller held, and sections exclude
each other. -/
def Safe (x : Machine T × List (Event T)) : Prop :=
  (∀ i held, .released i held ∈ x.2 → held = true) ∧ Exclusion x.1

/-- Every `IsLockedRead` and `IsLockedWrite` finds that it cannot take the lock. -/
def ProbesRefused (k : Wrapper) (x : Machine T × List (Event T)) : Action T → Prop
  | .step i ok =>
    match x.1.ops i with
    | .acquire c => c.probes = true → ok = true → x.1.lock.acquire i (c.mode k) = none
    | _ => True
  | _ => True

instance (k : Wrapper) (x : Machine T × List (Event T)) (a : Action T) : Decidable (ProbesRefused k x a) := by
  unfold ProbesRefused
  split
  · split <;> infer_instance
  · infer_instance

/-- No probe returned `false`. -/
def NoProbe (l : List (Event T)) : Prop := ∀ i, .probed i ∉ l

/-- Every probe that returned `false` was followed by its `Release`. -/
def Settled (l : List (Event T)) : Prop := ∀ i, .probed i ∈ l → ∃ held, .released i held ∈ l

theorem Method.writes_exclusive {c : Method T} (k : Wrapper) (h : c.writes = true) : c.mode k = .exclusive := by
  cases c <;> first | rfl | cases h

section
variable {k : Wrapper} {equals : T → T → Bool} {observed : Bool} {initial : T} {m m' : Machine T}
  {l : List (Event T)} {a : Action T}

theorem NoProbe.of_append {e : Option (Event T)} (h : NoProbe (l ++ e.toList)) : NoProbe l :=
  fun i hi => h i (List.mem_append_left _ hi)

/-- The lock and the calls. Only without a probe does a call in a section hold
the lock, since a `Release` takes it from anybody. -/
structure Locking (k : Wrapper) (x : Machine T × List (Event T)) : Prop where
  holder : ∀ i mode, x.1.lock.Holds i mode → ∃ c, (x.1.ops i).locked = some c ∧ mode = c.mode k
  owed : ∀ i c, x.1.ops i = .probed c → .probed i ∈ x.2
  released : ∀ i held, .released i held ∈ x.2 → held = false ∧ .probed i ∈ x.2
  holds : NoProbe x.2 → ∀ i c, (x.1.ops i).locked = some c → x.1.lock.Holds i (c.mode k)

/-- A step that neither locks nor unlocks. -/
theorem Locking.frame (h : Locking k (m, l)) (hlock : m'.lock = m.lock)
    (hlocked : ∀ j, (m'.ops j).locked = (m.ops j).locked) (howed : ∀ j c, m'.ops j = .probed c → m.ops j = .probed c)
    {e : Option (Event T)} (he : ∀ i held, e ≠ some (.released i held)) : Locking k (m', l ++ e.toList) := by
  refine ⟨?_, ?_, ?_, ?_⟩
  · intro i mode hh
    simp only [hlock] at hh
    simp only [hlocked]
    exact h.holder i mode hh
  · intro i c hc
    exact List.mem_append_left _ (h.owed i c (howed i c hc))
  · intro i held hr
    rcases List.mem_append.1 hr with hr | hr
    · obtain ⟨hf, hp⟩ := h.released i held hr
      exact ⟨hf, List.mem_append_left _ hp⟩
    · exact absurd (Option.mem_toList.1 hr) (he i held)
  · intro hn i c hc
    simp only [hlocked] at hc
    simp only [hlock]
    exact h.holds hn.of_append i c hc

/-- A step of a call that stays in its section, or outside of any. -/
theorem Locking.goto (h : Locking k (m, l)) (i : OpId) {pc : Pc T} (hlock : m'.lock = m.lock)
    (hops : m'.ops = m.ops) (hlocked : pc.locked = (m.ops i).locked) (howed : ∀ c, pc ≠ .probed c)
    {e : Option (Event T)} (he : ∀ i held, e ≠ some (.released i held)) : Locking k (m'.goto i pc, l ++ e.toList) := by
  refine h.frame (by exact hlock) (fun j => ?_) (fun j c hc => ?_) he
  · rw [Machine.goto_ops, hops]
    split
    · rename_i hj
      rw [hj, hlocked]
    · rfl
  · rw [Machine.goto_ops, hops] at hc
    split at hc
    · exact absurd hc (howed c)
    · exact hc

theorem Locking.acquired (h : Locking k (m, l)) {i : OpId} {c : Method T} {lock : State OpId}
    (hpc : m.ops i = .acquire c) (hl : m.lock.acquire i (c.mode k) = some lock) :
    Locking k ({ m with lock := lock }.goto i (.section c), l ++ [.acquired i]) := by
  refine ⟨?_, ?_, ?_, ?_⟩
  · intro j mode hh
    rw [Machine.goto_ops]
    rcases (State.holds_acquire hl).1 hh with ⟨rfl, rfl⟩ | hh
    · rw [if_pos rfl]
      exact ⟨c, rfl, rfl⟩
    · obtain ⟨d, hd, hm⟩ := h.holder j mode hh
      have hj : j ≠ i := by
        rintro rfl
        rw [hpc] at hd
        cases hd
      rw [if_neg hj]
      exact ⟨d, hd, hm⟩
  · intro j d hd
    rw [Machine.goto_ops] at hd
    split at hd
    · cases hd
    · exact List.mem_append_left _ (h.owed j d hd)
  · intro j held hr
    have hr : .released j held ∈ l := by simpa using hr
    obtain ⟨hf, hp⟩ := h.released j held hr
    exact ⟨hf, List.mem_append_left _ hp⟩
  · intro hn j d hd
    have hn' : NoProbe l := fun i hi => hn i (List.mem_append_left _ hi)
    rw [Machine.goto_ops] at hd
    apply (State.holds_acquire hl).2
    split at hd
    · rename_i hj
      cases hd
      exact .inl ⟨hj, rfl⟩
    · exact .inr (h.holds hn' j d hd)

/-- A call gives back what it holds. -/
theorem Locking.unlocked (h : Locking k (m, l)) {i : OpId} {c : Method T} {o : Outcome T} {change : Option (T × T)}
    {pc : Pc T} {e : Event T} (hpc : m.ops i = .unlock c o change) (hlocked : pc.locked = none)
    (howed : ∀ d, pc = .probed d → e = .probed i) (he : ∀ i held, e ≠ .released i held) :
    Locking k ({ m with lock := m.lock.release i (c.mode k) }.goto i pc, l ++ [e]) := by
  refine ⟨?_, ?_, ?_, ?_⟩
  · intro j mode hh
    have hh : (m.lock.release i (c.mode k)).Holds j mode := hh
    obtain ⟨d, hd, hm⟩ := h.holder j mode (State.holds_of_release hh)
    have hj : j ≠ i := by
      rintro rfl
      rw [hpc] at hd
      cases hd
      subst hm
      exact ((State.holds_release (State.holds_of_release hh)).1 hh).2 ⟨rfl, rfl⟩
    rw [Machine.goto_ops, if_neg hj]
    exact ⟨d, hd, hm⟩
  · intro j d hd
    rw [Machine.goto_ops] at hd
    split at hd
    · rename_i hj
      rw [hj, howed d hd]
      simp
    · exact List.mem_append_left _ (h.owed j d hd)
  · intro j held hr
    rcases List.mem_append.1 hr with hr | hr
    · obtain ⟨hf, hp⟩ := h.released j held hr
      exact ⟨hf, List.mem_append_left _ hp⟩
    · exact absurd (List.mem_singleton.1 hr).symm (he j held)
  · intro hn j d hd
    have hn' : NoProbe l := fun i hi => hn i (List.mem_append_left _ hi)
    have hi : m.lock.Holds i (c.mode k) := h.holds hn' i c (by simp [hpc, Pc.locked])
    rw [Machine.goto_ops] at hd
    split at hd
    · rw [hlocked] at hd
      cases hd
    · rename_i hj
      exact (State.holds_release hi).2 ⟨h.holds hn' j d hd, fun hji => hj hji.1⟩

/-- The caller of a probe holds nothing when it releases. -/
theorem Locking.release (h : Locking k (m, l)) {i : OpId} {c : Method T} (hpc : m.ops i = .probed c) :
    Locking k ({ m with lock := m.lock.release i (c.mode k) }.goto i (.returned c (.isLocked false)),
      l ++ [.released i (m.lock.Holds i (c.mode k))]) := by
  have hi : .probed i ∈ l := h.owed i c hpc
  refine ⟨?_, ?_, ?_, ?_⟩
  · intro j mode hh
    obtain ⟨d, hd, hm⟩ := h.holder j mode (State.holds_of_release hh)
    have hj : j ≠ i := by
      rintro rfl
      rw [hpc] at hd
      cases hd
    rw [Machine.goto_ops, if_neg hj]
    exact ⟨d, hd, hm⟩
  · intro j d hd
    rw [Machine.goto_ops] at hd
    split at hd
    · cases hd
    · exact List.mem_append_left _ (h.owed j d hd)
  · intro j held hr
    rcases List.mem_append.1 hr with hr | hr
    · obtain ⟨hf, hp⟩ := h.released j held hr
      exact ⟨hf, List.mem_append_left _ hp⟩
    · have hno : ¬ m.lock.Holds i (c.mode k) := by
        intro hh
        obtain ⟨d, hd, -⟩ := h.holder i _ hh
        rw [hpc] at hd
        cases hd
      obtain ⟨rfl, rfl⟩ : j = i ∧ held = decide (m.lock.Holds i (c.mode k)) := by simpa using hr
      exact ⟨decide_eq_false hno, List.mem_append_left _ hi⟩
  · intro hn
    exact absurd (List.mem_append_left _ hi) (hn i)

theorem Locking.step (h : Locking k (m, l)) (hs : step k equals observed m a = some m') :
    Locking k (m', l ++ (event k equals m a).toList) := by
  have hm := step_moved hs
  generalize event k equals m a = e at hm
  cases hm with
  | call i c hpc =>
    refine h.goto i (by rfl) (by rfl) ?_ ?_ ?_
    · simp [hpc, Pc.locked]
    · nofun
    · nofun
  | refused i ok c hpc =>
    refine h.goto i (by rfl) (by rfl) ?_ ?_ ?_
    · simp [hpc, Pc.locked]
    · nofun
    · nofun
  | acquired i ok c lock hpc hl => exact h.acquired hpc hl
  | compared i ok c value hpc hc =>
    refine h.goto i (by rfl) (by rfl) ?_ ?_ ?_
    · rw [hpc]
      split <;> rfl
    · intro d
      split <;> nofun
    · nofun
  | passed i ok c hpc hc =>
    refine h.goto i (by rfl) (by rfl) ?_ ?_ ?_
    · simp [hpc, Pc.locked]
    · nofun
    · intro j held he
      cases c <;> cases he
  | stored i ok c oldValue value hpc =>
    refine h.goto i (by rfl) (by rfl) ?_ ?_ ?_
    · simp [hpc, Pc.locked]
    · nofun
    · nofun
  | unlocked i ok c o change hpc =>
    refine h.unlocked hpc ?_ ?_ ?_
    · cases change with
      | none => dsimp only; split <;> rfl
      | some => rfl
    · intro d hd
      cases change with
      | none =>
        dsimp only at hd
        split at hd
        · rw [if_pos ‹_›]
        · cases hd
      | some => cases hd
    · intro j held he
      split at he <;> cases he
  | delivered i ok c o oldValue value hpc =>
    refine h.goto i (by rfl) (by rfl) ?_ ?_ ?_
    · simp [hpc, Pc.locked]
    · nofun
    · nofun
  | released i ok c hpc => exact h.release hpc
  | written i v c hpc hm =>
    refine h.frame (by rfl) (fun _ => by rfl) (fun _ _ hc => by exact hc) ?_
    nofun

theorem locking_reachable {C : Machine T × List (Event T) → Action T → Prop} {x : Machine T × List (Event T)}
    (h : (system k equals observed initial).ReachableWhen C x) : Locking k x := by
  refine h.invariant (fun x hx => ?_) fun x a y hi _ hs => ?_
  · obtain ⟨hm, hl⟩ := hx
    obtain ⟨m, l⟩ := x
    cases hm
    cases hl
    exact ⟨fun i mode hh => absurd hh State.not_holds_free, nofun, nofun, fun _ i c hc => nomatch hc⟩
  · obtain ⟨m', l'⟩ := y
    obtain ⟨hst, hl⟩ := System.logged_step.1 hs
    cases hl
    exact Locking.step hi hst

/-- Without a probe, whoever is in a section holds the lock. -/
theorem Locking.exclusion (h : Locking k (m, l)) (hn : NoProbe l) : Exclusion m := by
  have hlocked : ∀ i c, (m.ops i).inSection = some c → (m.ops i).locked = some c := by
    intro i c hc
    unfold Pc.inSection at hc
    split at hc
    · rename_i d hd
      exact absurd (h.owed i d hd) (hn i)
    · exact hc
  intro i j c d hij hi hj
  cases hw : c.writes with
  | false => rfl
  | true =>
    have hhi := h.holds hn i c (hlocked i c hi)
    have hhj := h.holds hn j d (hlocked j d hj)
    rw [Method.writes_exclusive k hw] at hhi
    exact absurd (hhi.only hhj).1.symm hij

theorem Method.probes_tries {c : Method T} (h : c.probes = true) : c.tries = true := by
  cases c <;> first | rfl | cases h

/-- A probe that cannot take the lock does not return `false`. -/
theorem noProbe_of_refused {x : Machine T × List (Event T)}
    (h : (system k equals observed initial).ReachableWhen (ProbesRefused k) x) : NoProbe x.2 := by
  have hboth : NoProbe x.2 ∧ ∀ i c, (x.1.ops i).locked = some c → c.probes = false := by
    refine h.invariant (I := fun x => NoProbe x.2 ∧ ∀ i c, (x.1.ops i).locked = some c → c.probes = false)
      (fun x hx => ?_) fun x a y ⟨hn, hl⟩ hc hs => ?_
    · obtain ⟨hm, hlog⟩ := hx
      rw [hm, hlog]
      exact ⟨nofun, nofun⟩
    · obtain ⟨hst, hlog⟩ := System.logged_step.1 hs
      have hm := step_moved hst
      rw [hlog]
      -- Only an unlocking shows a probe, and only a probe takes the lock for one.
      have hkeep : ∀ {m₁ : Machine T} {i : OpId} {pc : Pc T} {e : Option (Event T)}, m₁.ops = x.1.ops →
          (∀ c, pc.locked = some c → c.probes = false) → (∀ j, e ≠ some (.probed j)) →
          NoProbe (x.2 ++ e.toList) ∧ ∀ j c, ((m₁.goto i pc).ops j).locked = some c → c.probes = false := by
        intro m₁ i pc e ho hpc he
        refine ⟨fun j hj => ?_, fun j c hj => ?_⟩
        · rcases List.mem_append.1 hj with hj | hj
          · exact hn j hj
          · exact he j (Option.mem_toList.1 hj)
        · rw [Machine.goto_ops, ho] at hj
          split at hj
          · exact hpc c hj
          · exact hl j c hj
      generalize event k equals x.1 a = e at hm
      generalize y.1 = m' at hm
      cases hm with
      | call => exact hkeep rfl nofun nofun
      | refused => exact hkeep rfl nofun nofun
      | acquired i ok c lock hpc hlock hok =>
        refine hkeep rfl (fun d hd => ?_) nofun
        cases hd
        refine Bool.eq_false_iff.2 fun hp => ?_
        simp only [ProbesRefused, hpc] at hc
        have := hc hp (hok (Method.probes_tries hp))
        rw [hlock] at this
        cases this
      | compared i ok c value hpc =>
        refine hkeep rfl (fun d hd => hl i d ?_) nofun
        rw [hpc]
        split at hd <;> exact hd
      | passed i ok c hpc =>
        refine hkeep rfl (fun d hd => hl i d (by rw [hpc]; exact hd)) fun j he => ?_
        cases c <;> cases he
      | stored i ok c oldValue value hpc =>
        exact hkeep rfl (fun d hd => hl i d (by rw [hpc]; exact hd)) nofun
      | unlocked i ok c o change hpc =>
        have hp : c.probes = false := hl i c (by rw [hpc]; rfl)
        refine hkeep rfl (fun d hd => ?_) fun j he => ?_
        · cases change <;> simp [hp, Pc.locked] at hd
        · simp [hp] at he
      | delivered => exact hkeep rfl nofun nofun
      | released => exact hkeep rfl nofun nofun
      | written =>
        refine ⟨fun j hj => hn j (by simpa using hj), hl⟩
  exact hboth.1

/-- The protocol is safe in every run whose probes cannot take the lock, and a
run that has made up for its probes was safe only if none of them took it. -/
theorem probe_protocol (k : Wrapper) (equals : T → T → Bool) (observed : Bool) (initial : T)
    (x : Machine T × List (Event T)) :
    ((system k equals observed initial).ReachableWhen (ProbesRefused k) x → Safe x) ∧
      ((system k equals observed initial).Reachable x → Settled x.2 → (Safe x ↔ NoProbe x.2)) := by
  have hsafe : ∀ {C : Machine T × List (Event T) → Action T → Prop},
      (system k equals observed initial).ReachableWhen C x → NoProbe x.2 → Safe x := by
    intro C h hn
    have hl := locking_reachable h
    refine ⟨fun i held hr => ?_, hl.exclusion hn⟩
    exact absurd (hl.released i held hr).2 (hn i)
  refine ⟨fun h => hsafe h (noProbe_of_refused h), fun h hset => ⟨fun hs i hi => ?_, hsafe h⟩⟩
  obtain ⟨held, hr⟩ := hset i hi
  have hf := ((locking_reachable h).released i held hr).1
  have ht := hs.1 i held hr
  rw [hf] at ht
  cases ht

end

/-! ## A probe that returns `false` -/

/-- Operation 0 probes a free lock, operation 1 enters `WithWriteLock`, and
operation 0 releases. -/
def probeAndRelease : List (Action Nat) :=
  [.call 0 .isLockedWrite, .step 0 true, .step 0 true, .step 0 true, .call 1 .withWriteLock, .step 1 true,
    .step 0 true]

theorem probe_releases (k : Wrapper) :
    ∃ x, (system k (· == ·) false 0).Reachable x ∧ x.2 = [.acquired 0, .probed 0, .acquired 1, .released 0 false] := by
  have hrun : ((system k (· == ·) false 0).replay (.start 0, []) probeAndRelease).map (fun x => x.2) =
      some [.acquired 0, .probed 0, .acquired 1, .released 0 false] := by
    cases k <;> decide
  obtain ⟨x, hs, hl⟩ := Option.map_eq_some_iff.1 hrun
  exact ⟨x, System.reachable_of_replay ⟨rfl, rfl⟩ hs, hl⟩

theorem unheld_lock_released : ¬ ∀ (k : Wrapper) (x : Machine Nat × List (Event Nat)),
    (system k (· == ·) false 0).Reachable x → Safe x := by
  intro hall
  obtain ⟨x, hx, hl⟩ := probe_releases .mutex
  have := (hall .mutex x hx).1 0 false (by simp [hl])
  cases this

/-- A probe that finds the lock taken owes nothing. -/
theorem locked_probe : ∃ x : Machine Nat × List (Event Nat),
    (system .readWriteMutex (· == ·) false 0).ReachableWhen (ProbesRefused .readWriteMutex) x ∧
      Safe x ∧ (Safe x ↔ NoProbe x.2) ∧ x.1.ops 0 = .returned .isLockedWrite (.isLocked true) := by
  have hrun : ((system .readWriteMutex (· == ·) false (0 : Nat)).replayWhen (ProbesRefused .readWriteMutex)
      (.start 0, []) [.call 1 .withSharedReadLock, .step 1 true, .call 0 .isLockedWrite, .step 0 true]).map
      (fun x => (x.1.ops 0, x.2)) = some (.returned .isLockedWrite (.isLocked true), [.acquired 1]) := by
    decide
  obtain ⟨x, hs, hp⟩ := Option.map_eq_some_iff.1 hrun
  simp only [Prod.mk.injEq] at hp
  have hr := System.reachableWhen_of_replayWhen (S := system .readWriteMutex (· == ·) false 0) ⟨rfl, rfl⟩ hs
  have hprotocol := probe_protocol .readWriteMutex (· == ·) false 0 x
  exact ⟨x, hr, hprotocol.1 hr, hprotocol.2 hr.reachable (by simp [Settled, hp.2]), hp.1⟩

end ESPressio.ThreadSafe
