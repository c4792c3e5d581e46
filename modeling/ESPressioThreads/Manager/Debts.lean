import ESPressioThreads.Manager.ExactPass
import ESPressioThreads.Manager.Pinning
/-!
# What a cleanup pass still has to do

A registered thread waits for a pass to come to it, a claimed one to be taken
out of the registry, and a removed one to be deleted. Where no call of a pass
throws, one step of the manager passes each of these on, or settles it.
-/

namespace ESPressio.Manager

/-- The records a pass has still to come to. -/
def PassPc.coming : PassPc → List ThreadRecord
  | .notifyStarted snapshot _ => snapshot
  | .getThreadState rest _ _ | .notifyClaimed _ rest _ _ => rest
  | .tryClaim record rest _ _ => record :: rest
  | _ => []

/-- The claims of a pass before its write section. -/
def PassPc.held : PassPc → List ClaimedCleanupRecord
  | .getThreadState _ claimed _ | .tryClaim _ _ claimed _ | .notifyClaimed _ _ claimed _
  | .removeClaimed claimed _ => claimed
  | _ => []

/-- The threads out of the registry that a pass will delete. -/
def PassPc.leaving : PassPc → List ThreadPtr
  | .unlock claimed _ | .notifyRemoved claimed _ => doomed claimed
  | .deleteThread c rest _ => doomed (c :: rest)
  | _ => []

/-- A pass that has not looked at the registry yet. -/
def PassPc.Starts : PassPc → Prop
  | .lockIteration | .takeSnapshot => True
  | _ => False

def Pc.coming : Pc → List ThreadRecord
  | .cleanUp _ pc => pc.coming
  | _ => []

def Pc.held : Pc → List ClaimedCleanupRecord
  | .cleanUp _ pc => pc.held
  | _ => []

def Pc.leaving : Pc → List ThreadPtr
  | .cleanUp _ pc => pc.leaving
  | _ => []

def Pc.Starts : Pc → Prop
  | .cleanUp _ pc => pc.Starts
  | _ => False

@[simp] theorem Pc.coming_cleanUp (caller : Caller) (p : PassPc) : (Pc.cleanUp caller p).coming = p.coming := rfl

@[simp] theorem Pc.held_cleanUp (caller : Caller) (p : PassPc) : (Pc.cleanUp caller p).held = p.held := rfl

@[simp] theorem Pc.leaving_cleanUp (caller : Caller) (p : PassPc) : (Pc.cleanUp caller p).leaving = p.leaving := rfl

@[simp] theorem Pc.starts_cleanUp (caller : Caller) (p : PassPc) : (Pc.cleanUp caller p).Starts = p.Starts := rfl

/-- The operation is about to be told whether `t` is terminated. -/
def Pc.Asking (t : ThreadPtr) : Pc → Prop
  | .cleanUp _ (.getThreadState (record :: _) _ _) => record.thread = t
  | _ => False

/-- The records a pass in progress has read and not settled yet. -/
def Pc.keys (pc : Pc) : List (UInt8 × ThreadPtr) :=
  pc.coming.map ThreadRecord.key ++ pc.held.map ClaimedCleanupRecord.key

/-- A pass that will come to `t` is requested, about to start, or under way. -/
def Machine.Owes (m : Machine) (t : ThreadPtr) : Prop :=
  m.cleanupPending = true ∨ (∃ i, (m.ops i).Starts) ∨ ∃ i, ∃ record ∈ (m.ops i).coming, record.thread = t

/-- What one step of operation `i` does to the debts. -/
structure DebtStep (m : Machine) (i : OpId) (answer : Answer) (m' : Machine) : Prop where
  others : ∀ j, j ≠ i → m'.ops j = m.ops j
  pending : m.cleanupPending = true → m'.cleanupPending = true ∨ (m'.ops i).Starts
  starts : (m.ops i).Starts →
    m'.cleanupPending = true ∨ (m'.ops i).Starts ∨ (m'.ops i).coming = m'.registry.threads
  coming : ∀ record ∈ (m.ops i).coming, record ∈ (m'.ops i).coming ∨ record.thread = nullptr ∨
    ((m.ops i).Asking record.thread ∧ answer = .returnsBool false) ∨ (m.ops i).Claiming record.thread
  snapshot : ∀ record ∈ (m'.ops i).coming, record ∈ (m.ops i).coming ∨ record ∈ m.registry.threads
  held : ∀ c ∈ (m.ops i).held, c ∈ (m'.ops i).held ∨ ∀ record ∈ m'.registry.threads, record.key ≠ c.key
  claims : ∀ t, (m.ops i).Claiming t → answer = .returnsBool true → ∃ c ∈ (m'.ops i).held, c.thread = t
  origin : ∀ c ∈ (m'.ops i).held, c ∈ (m.ops i).held ∨ ∃ record ∈ (m.ops i).coming, record.key = c.key
  registry : ∀ record ∈ m'.registry.threads, record ∈ m.registry.threads ∨
    (record.thread ∉ m.registry.pointers ∧ answer ≠ .throws ∧
      ∃ assigned requested, m.ops i = .addThread record.thread assigned (.insert requested))
  condemned : ∀ t ∈ m'.condemned, t ∈ m.condemned ∨ (t ∈ (m'.ops i).leaving ∧ t ∈ (m.ops i).claims)
  leaving : ∀ t ∈ (m.ops i).leaving, t ∈ (m'.ops i).leaving ∨ t ∈ m'.deleted
  deleted : ∀ t ∈ m.deleted, t ∈ m'.deleted

/-- An operation that is in no phase of a pass with a debt. -/
structure Pc.Bare (pc : Pc) : Prop where
  coming : pc.coming = []
  held : pc.held = []
  leaving : pc.leaving = []
  starts : ¬ pc.Starts
  claiming : ∀ t, ¬ pc.Claiming t

variable {m m' m₁ : Machine} {i : OpId} {n : Nat} {answer : Answer} {pc : Pc}

theorem Pc.bare_of_cleanUp {caller : Caller} {p : PassPc} (hc : p.coming = []) (hh : p.held = [])
    (hl : p.leaving = []) (hs : ¬ p.Starts) : (Pc.cleanUp caller p).Bare := by
  refine ⟨hc, hh, hl, hs, fun t ht => ?_⟩
  cases p with
  | tryClaim => cases hc
  | _ => exact ht

theorem Pc.bare_outside (h : ∀ caller p, pc ≠ .cleanUp caller p) : pc.Bare := by
  cases pc with
  | cleanUp caller p => exact absurd rfl (h caller p)
  | _ => exact ⟨rfl, rfl, rfl, id, fun _ => id⟩

/-! ## One step -/

/-- A step of an operation without debts, to one that may start a pass. -/
theorem DebtStep.outside (hbare : (m.ops i).Bare) (ho : m₁.ops = m.ops)
    (hp : m.cleanupPending = true → m₁.cleanupPending = true ∨ pc.Starts) (hcoming : pc.coming = [])
    (hheld : pc.held = [])
    (hr : ∀ record ∈ m₁.registry.threads, record ∈ m.registry.threads ∨
      (record.thread ∉ m.registry.pointers ∧ answer ≠ .throws ∧
        ∃ assigned requested, m.ops i = .addThread record.thread assigned (.insert requested)))
    (hc : m₁.condemned = m.condemned) (hd : m₁.deleted = m.deleted) : DebtStep m i answer (m₁.goto i pc) where
  others j hj := by simp [Machine.goto, hj, ho]
  pending h := by simpa [Machine.goto] using hp h
  starts h := absurd h hbare.starts
  coming record hr := by rw [hbare.coming] at hr; cases hr
  snapshot record hr := by simp [Machine.goto, hcoming] at hr
  held c hc := by rw [hbare.held] at hc; cases hc
  claims t ht := absurd ht (hbare.claiming t)
  origin c hc := by simp [Machine.goto, hheld] at hc
  registry := hr
  condemned t ht := .inl (hc ▸ ht)
  leaving t ht := by rw [hbare.leaving] at ht; cases ht
  deleted t ht := by
    show t ∈ m₁.deleted
    rwa [hd]

/-- A step that leaves the registry and the history alone. -/
theorem DebtStep.pass {caller : Caller} {p p' : PassPc} (hpc : m.ops i = .cleanUp caller p) (ho : m₁.ops = m.ops)
    (hr : m₁.registry = m.registry) (hc : m₁.condemned = m.condemned) (hd : m₁.deleted = m.deleted)
    (hp : m.cleanupPending = true → m₁.cleanupPending = true)
    (starts : p.Starts → m₁.cleanupPending = true ∨ p'.Starts ∨ p'.coming = m.registry.threads)
    (coming : ∀ record ∈ p.coming, record ∈ p'.coming ∨ record.thread = nullptr ∨
      ((m.ops i).Asking record.thread ∧ answer = .returnsBool false) ∨ (m.ops i).Claiming record.thread)
    (snapshot : ∀ record ∈ p'.coming, record ∈ p.coming ∨ record ∈ m.registry.threads)
    (held : ∀ c ∈ p.held, c ∈ p'.held)
    (claims : ∀ t, (m.ops i).Claiming t → answer = .returnsBool true → ∃ c ∈ p'.held, c.thread = t)
    (origin : ∀ c ∈ p'.held, c ∈ p.held ∨ ∃ record ∈ p.coming, record.key = c.key)
    (leaving : p.leaving = p'.leaving) : DebtStep m i answer (m₁.goto i (.cleanUp caller p')) where
  others j hj := by simp [Machine.goto, hj, ho]
  pending h := .inl (hp h)
  starts h := by
    rw [hpc] at h
    simpa [Machine.goto, hr] using starts h
  coming record hm := by
    rw [hpc] at hm
    simpa [Machine.goto] using coming record hm
  snapshot record hm := by
    rw [hpc]
    simp only [Machine.goto, Function.update_self] at hm
    exact snapshot record hm
  held c hm := by
    rw [hpc] at hm
    left
    simpa [Machine.goto] using held c hm
  claims t ht ha := by simpa [Machine.goto] using claims t ht ha
  origin c hm := by
    rw [hpc]
    simp only [Machine.goto, Function.update_self] at hm
    exact origin c hm
  registry record hm := .inl (hr ▸ hm)
  condemned t ht := .inl (hc ▸ ht)
  leaving t ht := by
    rw [hpc] at ht
    left
    simpa [Machine.goto, ← leaving] using ht
  deleted t ht := by
    show t ∈ m₁.deleted
    rwa [hd]

/-- The same for operations outside of passes, which leave the registry alone. -/
theorem DebtStep.keep (hbare : (m.ops i).Bare) (hpc : pc.Bare) (ho : m₁.ops = m.ops) (hr : m₁.registry = m.registry)
    (hc : m₁.condemned = m.condemned) (hd : m₁.deleted = m.deleted) (hp : m₁.cleanupPending = m.cleanupPending) :
    DebtStep m i answer (m₁.goto i pc) :=
  .outside hbare ho (fun h => .inl (hp.trans h)) hpc.coming hpc.held (fun _ hm => .inl (hr ▸ hm)) hc hd

theorem debtStep_stepAddThread {t : ThreadPtr} {assigned : Bool} {p : AddPc} (hpc : m.ops i = .addThread t assigned p)
    (h : stepAddThread n m i t assigned p answer = some m') : DebtStep m i answer m' := by
  have hbare : (m.ops i).Bare := Pc.bare_outside (by simp [hpc])
  have hstay : ∀ {m₁ : Machine} {pc : Pc}, (∀ caller p, pc ≠ .cleanUp caller p) → m₁.ops = m.ops →
      m₁.registry = m.registry → m₁.condemned = m.condemned → m₁.deleted = m.deleted →
      m₁.cleanupPending = m.cleanupPending → DebtStep m i answer (m₁.goto i pc) :=
    fun hno ho hr hc hd hp => .keep hbare (Pc.bare_outside hno) ho hr hc hd hp
  unfold stepAddThread at h
  cases p with
  | lookUp =>
    dsimp only at h
    split at h
    · cases h; exact hstay (by simp) rfl rfl rfl rfl rfl
    · split at h <;> cases h <;> exact hstay (by simp) rfl rfl rfl rfl rfl
  | getThreadID =>
    dsimp only at h
    split at h <;> cases h <;> exact hstay (by simp) rfl rfl rfl rfl rfl
  | insert requested =>
    have hcase := Registry.insertion m.registry n t assigned requested
    dsimp only at h
    split at h
    · rename_i registry record inserted hins
      rw [hins] at hcase
      split at h
      · rename_i hfresh
        split at h <;> cases h
        · exact hstay (by simp) rfl rfl rfl rfl rfl
        · rename_i hans
          refine .outside hbare rfl .inl rfl rfl (fun r hr => ?_) rfl rfl
          cases hcase with
          | existing => cases hfresh
          | added id hnew =>
            rcases List.mem_append.1 hr with hr | hr
            · exact .inl hr
            · rw [List.mem_singleton.1 hr]
              exact .inr ⟨Registry.findThread_eq_none.1 ‹_›, hans, assigned, requested, hpc⟩
      · cases h; exact hstay (by simp) rfl rfl rfl rfl rfl
    · cases h; exact hstay (by simp) rfl rfl rfl rfl rfl
  | notifyRegistered record =>
    dsimp only at h
    split at h <;> cases h <;> exact hstay (by simp) rfl rfl rfl rfl rfl
  | notifyFailed e => cases h; exact hstay (by simp) rfl rfl rfl rfl rfl

theorem debtStep_stepRemoveThread {key : RemoveBy} (hpc : m.ops i = .removeThread key) :
    DebtStep m i answer (stepRemoveThread m i key) := by
  have hbare : (m.ops i).Bare := Pc.bare_outside (by simp [hpc])
  have hgone : ∀ {registry : Registry} {record : ThreadRecord}, registry.threads.Sublist m.registry.threads →
      DebtStep m i answer ({ m with registry := registry }.goto i (.notifyRemoved record)) :=
    fun hsub => .outside hbare rfl .inl rfl rfl (fun _ hm => .inl (hsub.subset hm)) rfl rfl
  cases key with
  | thread t =>
    simp only [stepRemoveThread]
    split
    · exact .keep hbare (Pc.bare_outside (by simp)) rfl rfl rfl rfl rfl
    · exact hgone List.eraseP_sublist
  | id id =>
    simp only [stepRemoveThread]
    split
    · exact .keep hbare (Pc.bare_outside (by simp)) rfl rfl rfl rfl rfl
    · exact hgone List.eraseP_sublist

/-- The last iteration takes over the request that was deferred to it. -/
theorem debtStep_stepIteration {kind : IterationKind} {p : IterationPc} (hpc : m.ops i = .iteration kind p)
    (h : stepIteration m i kind p answer = some m') : DebtStep m i answer m' := by
  have hbare : (m.ops i).Bare := Pc.bare_outside (by simp [hpc])
  have hstay : ∀ {m₁ : Machine} {pc : Pc}, (∀ caller p, pc ≠ .cleanUp caller p) → m₁.ops = m.ops →
      m₁.registry = m.registry → m₁.condemned = m.condemned → m₁.deleted = m.deleted →
      m₁.cleanupPending = m.cleanupPending → DebtStep m i answer (m₁.goto i pc) :=
    fun hno ho hr hc hd hp => .keep hbare (Pc.bare_outside hno) ho hr hc hd hp
  unfold stepIteration at h
  split at h
  · split at h <;> cases h
    exact hstay (by simp) rfl rfl rfl rfl rfl
  · cases h; exact hstay (by simp) rfl rfl rfl rfl rfl
  · cases h; exact hstay (by simp) rfl rfl rfl rfl rfl
  · split at h <;> cases h <;> exact hstay (by simp) rfl rfl rfl rfl rfl
  · cases h; exact hstay (by simp) rfl rfl rfl rfl rfl
  · cases h; exact hstay (by simp) rfl rfl rfl rfl rfl
  · split at h <;> cases h
    simp only [endIteration]
    split
    · exact .outside hbare rfl (fun _ => .inr trivial) rfl rfl (fun _ hm => .inl hm) rfl rfl
    · exact hstay (by simp) rfl rfl rfl rfl rfl
  · cases h

/-- The write section of a pass settles its claims. -/
theorem debtStep_removeClaimed {caller : Caller} {claimed : List ClaimedCleanupRecord} {r r' : CleanupResult}
    (hr : m.registry.WellFormed) (hfresh : ∀ c ∈ claimed, c.removed = false)
    (hpc : m.ops i = .cleanUp caller (.removeClaimed claimed r)) :
    DebtStep m i answer
      ({ m with
          registry := (m.registry.removeClaimed claimed).1
          condemned := m.condemned ++ doomed (m.registry.removeClaimed claimed).2 }.goto i
        (.cleanUp caller (.unlock (m.registry.removeClaimed claimed).2 r'))) where
  others j hj := by simp [Machine.goto, hj]
  pending h := .inl h
  starts h := by rw [hpc] at h; exact h.elim
  coming record hm := by rw [hpc] at hm; cases hm
  snapshot record hm := by
    simp only [Machine.goto, Function.update_self] at hm
    cases hm
  held c hc := by
    rw [hpc] at hc
    right
    intro record hm
    have hm : record ∈ (m.registry.removeClaimed claimed).1.threads := hm
    rw [Registry.removeClaimed_filter hr] at hm
    have hno := (List.mem_filter.1 hm).2
    exact (of_decide_eq_true hno) c hc
  claims t ht := by rw [hpc] at ht; exact ht.elim
  origin c hc := by
    simp only [Machine.goto, Function.update_self] at hc
    cases hc
  registry record hm := .inl ((Registry.removeClaimed_sublist claimed).1.subset hm)
  condemned t ht := by
    rcases List.mem_append.1 ht with ht | ht
    · exact .inl ht
    · right
      refine ⟨by simpa [Machine.goto, PassPc.leaving] using ht, ?_⟩
      obtain ⟨c, hc, hct⟩ := List.mem_map.1 ht
      obtain ⟨hc, hremoved⟩ := List.mem_filter.1 hc
      obtain ⟨-, d, hd, hdt⟩ := Registry.removeClaimed_removed hr hfresh hc hremoved
      rw [hpc]
      exact List.mem_map.2 ⟨d, hd, hdt.trans hct⟩
  leaving t ht := by rw [hpc] at ht; cases ht
  deleted t ht := ht

/-- A pass goes on to the rest of its deletions. -/
theorem DebtStep.delete {caller : Caller} {c : ClaimedCleanupRecord} {rest : List ClaimedCleanupRecord}
    {r r' : CleanupResult} (hpc : m.ops i = .cleanUp caller (.deleteThread c rest r)) :
    DebtStep m i answer
      ({ m with deleted := m.deleted ++ [c.thread] }.goto i (.cleanUp caller (.notifyRemoved rest r'))) where
  others j hj := by simp [Machine.goto, hj]
  pending h := .inl h
  starts h := by rw [hpc] at h; exact h.elim
  coming record hm := by rw [hpc] at hm; cases hm
  snapshot record hm := by
    simp only [Machine.goto, Function.update_self] at hm
    cases hm
  held c hc := by rw [hpc] at hc; cases hc
  claims t ht := by rw [hpc] at ht; exact ht.elim
  origin c hc := by
    simp only [Machine.goto, Function.update_self] at hc
    cases hc
  registry record hm := .inl hm
  condemned t ht := .inl ht
  leaving t ht := by
    rw [hpc] at ht
    have ht : t ∈ doomed (c :: rest) := ht
    by_cases htc : t = c.thread
    · exact .inr (List.mem_append_right _ (List.mem_singleton.2 htc))
    · left
      obtain ⟨d, hd, hdt⟩ := List.mem_map.1 ht
      obtain ⟨hd, hremoved⟩ := List.mem_filter.1 hd
      rcases List.mem_cons.1 hd with rfl | hd
      · exact absurd hdt.symm htc
      · have : t ∈ doomed rest := List.mem_map.2 ⟨d, List.mem_filter.2 ⟨hd, hremoved⟩, hdt⟩
        simpa [Machine.goto, PassPc.leaving] using this
  deleted t ht := List.mem_append_left _ ht

theorem debtStep_stepCleanUp {caller : Caller} {p : PassPc} (hr : m.registry.WellFormed) (hsound : (m.ops i).Sound)
    (hpc : m.ops i = .cleanUp caller p) (hans : answer ≠ .throws)
    (h : stepCleanUp m i caller p answer = some m') : DebtStep m i answer m' := by
  rw [hpc] at hsound
  -- A step that neither comes to a record nor claims, removes or deletes one.
  have hmove : ∀ {m₁ : Machine} {p' : PassPc}, m₁.ops = m.ops → m₁.registry = m.registry →
      m₁.condemned = m.condemned → m₁.deleted = m.deleted → m₁.cleanupPending = m.cleanupPending →
      ¬ p.Starts → p'.coming = p.coming → p'.held = p.held → p'.leaving = p.leaving →
      (∀ t, ¬ (Pc.cleanUp caller p).Claiming t) → DebtStep m i answer (m₁.goto i (.cleanUp caller p')) := by
    intro m₁ p' ho hr hc hd hp hstarts hcoming hheld hleaving hno
    refine .pass hpc ho hr hc hd (fun h => hp.trans h) (fun h => absurd h hstarts) ?_ ?_ ?_ ?_ ?_ hleaving.symm
    · intro record hm
      exact .inl (by rwa [hcoming])
    · intro record hm
      exact .inl (by rwa [← hcoming])
    · intro c hm
      rwa [hheld]
    · intro t ht
      rw [hpc] at ht
      exact absurd ht (hno t)
    · intro c hm
      exact .inl (by rwa [← hheld])
  have hend : ∀ {m₁ : Machine} {outcome : Outcome}, p.coming = [] → p.held = [] → p.leaving = [] → ¬ p.Starts →
      m₁.ops = m.ops → m₁.registry = m.registry → m₁.condemned = m.condemned → m₁.deleted = m.deleted →
      m₁.cleanupPending = m.cleanupPending → DebtStep m i answer (m₁.goto i (.returned outcome)) := by
    intro m₁ outcome hc hh hl hs
    refine .keep ?_ (Pc.bare_outside (by simp))
    rw [hpc]
    exact Pc.bare_of_cleanUp hc hh hl hs
  unfold stepCleanUp at h
  split at h
  · -- lockIteration
    have hno : ∀ t, ¬ (m.ops i).Claiming t := by rw [hpc]; exact fun _ => id
    split at h
    · dsimp only at h
      split at h <;> cases h
      · exact .pass hpc rfl rfl rfl rfl (fun _ => rfl) (fun _ => .inl rfl) (fun _ hm => by cases hm)
          (fun _ hm => by cases hm) (fun _ hm => by cases hm) (fun t ht => absurd ht (hno t)) (fun _ hm => by cases hm) rfl
      · exact .pass hpc rfl rfl rfl rfl id (fun _ => .inr (.inl trivial)) (fun _ hm => by cases hm)
          (fun _ hm => by cases hm) (fun _ hm => by cases hm) (fun t ht => absurd ht (hno t)) (fun _ hm => by cases hm) rfl
    · cases h
  · cases h; exact hmove rfl rfl rfl rfl rfl id rfl rfl rfl (fun _ => id)
  · cases h; exact hend rfl rfl rfl id rfl rfl rfl rfl rfl
  · exact absurd rfl hans
  · -- takeSnapshot
    have hno : ∀ t, ¬ (m.ops i).Claiming t := by rw [hpc]; exact fun _ => id
    cases h
    exact .pass hpc rfl rfl rfl rfl id (fun _ => .inr (.inr rfl)) (fun _ hm => by cases hm) (fun _ hm => .inr hm)
      (fun _ hm => by cases hm) (fun t ht => absurd ht (hno t)) (fun _ hm => by cases hm) rfl
  · exact absurd rfl hans
  · cases h; exact hmove rfl rfl rfl rfl rfl id rfl rfl rfl (fun _ => id)
  · exact absurd rfl hans
  · cases h; exact hmove rfl rfl rfl rfl rfl id rfl rfl rfl (fun _ => id)
  · -- getThreadState
    rename_i record rest claimed r
    have hno : ∀ t, ¬ (m.ops i).Claiming t := by rw [hpc]; exact fun _ => id
    have hask : (m.ops i).Asking record.thread := by rw [hpc]; rfl
    split at h
    · rename_i hnull
      cases h
      refine .pass hpc rfl rfl rfl rfl id False.elim ?_ ?_ (fun _ hm => hm) (fun t ht => absurd ht (hno t))
        (fun _ hm => .inl hm) rfl
      · intro s hs
        rcases List.mem_cons.1 hs with rfl | hs
        · exact .inr (.inl hnull)
        · exact .inl hs
      · intro s hs
        exact .inl (List.mem_cons_of_mem _ hs)
    · cases answer with
      | returnsBool terminated =>
        cases terminated with
        | true => cases h; exact hmove rfl rfl rfl rfl rfl id rfl rfl rfl (fun _ => id)
        | false =>
          cases h
          refine .pass hpc rfl rfl rfl rfl id False.elim ?_ ?_ (fun _ hm => hm) (fun t ht => absurd ht (hno t))
            (fun _ hm => .inl hm) rfl
          · intro s hs
            rcases List.mem_cons.1 hs with rfl | hs
            · exact .inr (.inr (.inl ⟨hask, rfl⟩))
            · exact .inl hs
          · intro s hs
            exact .inl (List.mem_cons_of_mem _ hs)
      | throws => exact absurd rfl hans
      | returns | threadID _ | status _ => cases h
  · -- tryClaim
    rename_i record rest claimed r won
    have hclaiming : (m.ops i).Claiming record.thread := by rw [hpc]; rfl
    have hpast : ∀ s ∈ record :: rest, s ∈ rest ∨ s.thread = nullptr ∨
        ((m.ops i).Asking s.thread ∧ Answer.returnsBool won = .returnsBool false) ∨ (m.ops i).Claiming s.thread := by
      intro s hs
      rcases List.mem_cons.1 hs with rfl | hs
      · exact .inr (.inr (.inr hclaiming))
      · exact .inl hs
    have hrest : ∀ s ∈ rest, s ∈ record :: rest ∨ s ∈ m.registry.threads :=
      fun s hs => .inl (List.mem_cons_of_mem _ hs)
    split at h <;> cases h
    · refine .pass hpc rfl rfl rfl rfl id False.elim hpast hrest ?_ ?_ ?_ rfl
      · intro c hc
        exact List.mem_append_left _ hc
      · intro t ht _
        have ht : record.thread = t := by rwa [hpc] at ht
        exact ⟨_, List.mem_append_right _ (List.mem_singleton_self _), ht⟩
      · intro c hc
        rcases List.mem_append.1 hc with hc | hc
        · exact .inl hc
        · rw [List.mem_singleton.1 hc]
          exact .inr ⟨record, List.mem_cons_self, rfl⟩
    · rename_i hlost
      refine .pass hpc rfl rfl rfl rfl id False.elim hpast hrest (fun _ hm => hm) ?_ (fun _ hm => .inl hm) rfl
      intro t _ ha
      cases ha
      exact absurd rfl hlost
  · exact absurd rfl hans
  · cases h; exact hmove rfl rfl rfl rfl rfl id rfl rfl rfl (fun _ => id)
  · exact absurd rfl hans
  · cases h; exact debtStep_removeClaimed hr hsound hpc
  · cases h; exact hmove rfl rfl rfl rfl rfl id rfl rfl rfl (fun _ => id)
  · cases h; exact hmove rfl rfl rfl rfl rfl id rfl rfl rfl (fun _ => id)
  · -- notifyRemoved
    rename_i c rest r
    split at h
    · split at h <;> cases h
      · exact hmove rfl rfl rfl rfl rfl id rfl rfl rfl (fun _ => id)
      · exact absurd rfl hans
    · rename_i hkept
      cases h
      refine hmove rfl rfl rfl rfl rfl id rfl rfl ?_ (fun _ => id)
      simp [PassPc.leaving, doomed, hkept]
  · cases h; exact .delete hpc
  · cases h; exact hend rfl rfl rfl id rfl rfl rfl rfl rfl
  · exact absurd rfl hans
  · cases h; exact hmove rfl rfl rfl rfl rfl id rfl rfl rfl (fun _ => id)
  · cases h; exact hend rfl rfl rfl id rfl rfl rfl rfl rfl
  · exact absurd rfl hans
  · cases h

/-- Every step of an operation, where no call of a pass throws. -/
theorem debtStep_step (hm : Sound m) (hans : ∀ caller p, m.ops i = .cleanUp caller p → answer ≠ .throws)
    (h : step n m (.step i answer) = some m') : DebtStep m i answer m' := by
  simp only [step, stepOp] at h
  split at h
  · cases h
  · cases h
  · rename_i hpc; exact debtStep_stepAddThread hpc h
  · rename_i hpc
    split at h <;> cases h
    exact debtStep_stepRemoveThread hpc
  · rename_i hpc
    have hbare : (m.ops i).Bare := Pc.bare_outside (by simp [hpc])
    split at h <;> cases h <;> exact .keep hbare (Pc.bare_outside (by simp)) rfl rfl rfl rfl rfl
  · rename_i hpc; exact debtStep_stepIteration hpc h
  · rename_i hpc; exact debtStep_stepCleanUp hm.wellFormed (hm.ops i) hpc (hans _ _ hpc) h

/-- A pass reads its records off the registry. -/
theorem DebtStep.keys (h : DebtStep m i answer m') {key : UInt8 × ThreadPtr} (hk : key ∈ (m'.ops i).keys) :
    key ∈ (m.ops i).keys ∨ ∃ record ∈ m.registry.threads, record.key = key := by
  rcases List.mem_append.1 hk with hk | hk
  · obtain ⟨record, hm, rfl⟩ := List.mem_map.1 hk
    rcases h.snapshot record hm with hm | hm
    · exact .inl (List.mem_append_left _ (List.mem_map.2 ⟨record, hm, rfl⟩))
    · exact .inr ⟨record, hm, rfl⟩
  · obtain ⟨c, hc, rfl⟩ := List.mem_map.1 hk
    rcases h.origin c hc with hc | ⟨record, hm, he⟩
    · exact .inl (List.mem_append_right _ (List.mem_map.2 ⟨c, hc, rfl⟩))
    · exact .inl (List.mem_append_left _ (List.mem_map.2 ⟨record, hm, he⟩))

/-- A pass is not lost on its way to a registered thread, unless it comes to it. -/
theorem DebtStep.owes {t : ThreadPtr} (h : DebtStep m i answer m') (ho : m.Owes t)
    (ht : t ∈ m'.registry.pointers) (hnull : t ≠ nullptr) (hask : (m.ops i).Asking t → answer ≠ .returnsBool false)
    (hclaim : ¬ (m.ops i).Claiming t) : m'.Owes t := by
  have hall : ∀ {pc : Pc}, pc.coming = m'.registry.threads → ∃ record ∈ pc.coming, record.thread = t := by
    intro pc he
    obtain ⟨record, hm, hrt⟩ := List.mem_map.1 ht
    exact ⟨record, by rwa [he], hrt⟩
  rcases ho with hp | ⟨j, hj⟩ | ⟨j, record, hm, hrt⟩
  · rcases h.pending hp with hp | hs
    · exact .inl hp
    · exact .inr (.inl ⟨i, hs⟩)
  · by_cases hji : j = i
    · subst hji
      rcases h.starts hj with hp | hs | hc
      · exact .inl hp
      · exact .inr (.inl ⟨j, hs⟩)
      · exact .inr (.inr ⟨j, hall hc⟩)
    · exact .inr (.inl ⟨j, by rwa [h.others j hji]⟩)
  · by_cases hji : j = i
    · subst hji
      rcases h.coming record hm with hm | hz | ⟨ha, he⟩ | hc
      · exact .inr (.inr ⟨j, record, hm, hrt⟩)
      · exact absurd (hrt.symm.trans hz) hnull
      · rw [hrt] at ha
        exact absurd he (hask ha)
      · rw [hrt] at hc
        exact absurd hc hclaim
    · exact .inr (.inr ⟨j, record, by rwa [h.others j hji], hrt⟩)

end ESPressio.Manager
