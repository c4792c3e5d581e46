import ESPressioThreads.Manager.Machine
/-!
# What a pass has claimed

The threads an operation holds a claim on, and what one step of the manager
does to them: only `TryClaimAutomaticCleanup` adds one, and only a claimed
thread is deleted.
-/

namespace ESPressio.Manager

/-- The claims of a pass that it has not deleted yet. -/
def PassPc.claims : PassPc → List ClaimedCleanupRecord
  | .getThreadState _ claimed _ | .tryClaim _ _ claimed _ | .notifyClaimed _ _ claimed _
  | .removeClaimed claimed _ | .unlock claimed _ | .notifyRemoved claimed _ => claimed
  | .deleteThread c rest _ => c :: rest
  | .lockIteration | .deferring | .notifyDeferred _ | .takeSnapshot | .notifyStarted _ _ | .notifyCompleted _
  | .unlockFailed _ | .notifyFailed _ => []

def Pc.claims : Pc → List ThreadPtr
  | .cleanUp _ pc => pc.claims.map fun c => c.thread
  | _ => []

/-- The operation is about to be told whether it claims `t`. -/
def Pc.Claiming (t : ThreadPtr) : Pc → Prop
  | .cleanUp _ (.tryClaim record _ _ _) => record.thread = t
  | _ => False

/-- The operation is deleting `t`. -/
def Pc.Deleting (t : ThreadPtr) : Pc → Prop
  | .cleanUp _ (.deleteThread c _ _) => c.thread = t
  | _ => False

theorem Pc.Deleting.mem_claims {pc : Pc} {t : ThreadPtr} (h : pc.Deleting t) : t ∈ pc.claims := by
  unfold Pc.Deleting at h
  split at h
  · rw [← h]; exact List.mem_cons_self
  · exact h.elim

theorem Pc.Deleting.eq {pc : Pc} {t u : ThreadPtr} (h : pc.Deleting t) (h' : pc.Deleting u) : t = u := by
  unfold Pc.Deleting at h
  split at h
  · exact h.symm.trans h'
  · exact h.elim

variable {m m' : Machine} {i : OpId} {coreCount : Nat} {answer : Answer}

theorem Registry.removeClaimed_threads {r : Registry} (cs : List ClaimedCleanupRecord) :
    (r.removeClaimed cs).2.map (fun c => c.thread) = cs.map fun c => c.thread := by
  induction cs generalizing r with
  | nil => rfl
  | cons c cs ih =>
    simp only [removeClaimed, List.map_cons, ih, List.cons.injEq, and_true]
    exact removeOne_thread c

/-- One step of operation `i`, as far as claims go. -/
structure ClaimStep (m : Machine) (i : OpId) (answer : Answer) (m' : Machine) : Prop where
  others : ∀ j, j ≠ i → m'.ops j = m.ops j
  claims : ∀ t ∈ (m'.ops i).claims, t ∈ (m.ops i).claims ∨
    ((m.ops i).Claiming t ∧ answer = .returnsBool true)
  deleted : ∀ t ∈ m'.deleted, t ∈ m.deleted ∨ (m.ops i).Deleting t

theorem ClaimStep.goto {pc : Pc} (ho : m'.ops = m.ops)
    (hc : ∀ t ∈ pc.claims, t ∈ (m.ops i).claims ∨ ((m.ops i).Claiming t ∧ answer = .returnsBool true))
    (hd : ∀ t ∈ m'.deleted, t ∈ m.deleted ∨ (m.ops i).Deleting t) : ClaimStep m i answer (m'.goto i pc) where
  others j hj := by simp [Machine.goto, hj, ho]
  claims t ht := by
    simp only [Machine.goto, Function.update_self] at ht
    exact hc t ht
  deleted := hd

/-- A step that deletes nothing and claims nothing new. -/
theorem ClaimStep.keep {pc : Pc} (ho : m'.ops = m.ops) (hd : m'.deleted = m.deleted)
    (hc : ∀ t ∈ pc.claims, t ∈ (m.ops i).claims) : ClaimStep m i answer (m'.goto i pc) :=
  .goto ho (fun t ht => .inl (hc t ht)) fun _ ht => .inl (hd ▸ ht)

theorem claimStep_stepCleanUp {caller : Caller} {pc : PassPc} (hpc : m.ops i = .cleanUp caller pc)
    (h : stepCleanUp m i caller pc answer = some m') : ClaimStep m i answer m' := by
  have hnone : ∀ pc : Pc, pc.claims = [] → ∀ t ∈ pc.claims, t ∈ (m.ops i).claims :=
    fun pc he t ht => by rw [he] at ht; cases ht
  have hsame : ∀ pc' : Pc, pc'.claims = (Pc.cleanUp caller pc).claims → ∀ t ∈ pc'.claims, t ∈ (m.ops i).claims := by
    intro pc' he t ht
    rwa [hpc, ← he]
  unfold stepCleanUp at h
  split at h
  · split at h
    · dsimp only at h
      split at h <;> cases h <;> exact .keep rfl rfl (hnone _ rfl)
    · cases h
  · cases h; exact .keep rfl rfl (hnone _ rfl)
  · cases h; exact .keep rfl rfl (hnone _ rfl)
  · cases h; exact .keep rfl rfl (hnone _ rfl)
  · cases h; exact .keep rfl rfl (hnone _ rfl)
  · cases h; exact .keep rfl rfl (hnone _ rfl)
  · cases h; exact .keep rfl rfl (hnone _ rfl)
  · cases h; exact .keep rfl rfl (hnone _ rfl)
  · cases h; exact .keep rfl rfl (hsame _ rfl)
  · split at h
    · cases h; exact .keep rfl rfl (hsame _ rfl)
    · cases answer with
      | returnsBool terminated => cases terminated <;> (cases h; exact .keep rfl rfl (hsame _ rfl))
      | throws => cases h; exact .keep rfl rfl (hnone _ rfl)
      | returns | threadID _ | status _ => cases h
  · -- tryClaim
    rename_i record rest claimed r won
    split at h <;> cases h
    · rename_i hwon
      refine .goto rfl (fun t ht => ?_) fun t ht => .inl ht
      have ht' : t ∈ (claimed.map fun c => c.thread) ∨ record.thread = t := by
        simp only [Pc.claims, PassPc.claims, List.map_append, List.map_cons, List.map_nil, List.mem_append,
          List.mem_singleton] at ht
        exact ht.imp id Eq.symm
      rcases ht' with ht' | ht'
      · exact .inl (by rw [hpc]; exact ht')
      · exact .inr ⟨by rw [hpc]; exact ht', by rw [hwon]⟩
    · exact .keep rfl rfl (hsame _ rfl)
  · cases h; exact .keep rfl rfl (hnone _ rfl)
  · cases h; exact .keep rfl rfl (hsame _ rfl)
  · cases h; exact .keep rfl rfl (hnone _ rfl)
  · cases h; exact .keep rfl rfl (hsame _ (Registry.removeClaimed_threads _))
  · cases h; exact .keep rfl rfl (hsame _ rfl)
  · cases h; exact .keep rfl rfl (hnone _ rfl)
  · -- notifyRemoved
    split at h
    · split at h <;> cases h
      · exact .keep rfl rfl (hsame _ rfl)
      · exact .keep rfl rfl (hnone _ rfl)
    · cases h
      refine .keep rfl rfl fun t ht => ?_
      rw [hpc]
      exact List.mem_cons_of_mem _ ht
  · -- deleteThread
    rename_i c rest r
    cases h
    refine .goto rfl (fun t ht => .inl ?_) fun t ht => ?_
    · rw [hpc]
      exact List.mem_cons_of_mem _ ht
    · rcases List.mem_append.1 ht with ht | ht
      · exact .inl ht
      · exact .inr (by rw [hpc]; exact (List.mem_singleton.1 ht).symm)
  · cases h; exact .keep rfl rfl (hnone _ rfl)
  · cases h; exact .keep rfl rfl (hnone _ rfl)
  · cases h; exact .keep rfl rfl (hnone _ rfl)
  · cases h; exact .keep rfl rfl (hnone _ rfl)
  · cases h; exact .keep rfl rfl (hnone _ rfl)
  · cases h

theorem ClaimStep.none {pc : Pc} (ho : m'.ops = m.ops) (hd : m'.deleted = m.deleted) (hpc : pc.claims = []) :
    ClaimStep m i answer (m'.goto i pc) :=
  .keep ho hd fun t ht => by rw [hpc] at ht; cases ht

theorem claimStep_stepAddThread {t : ThreadPtr} {assigned : Bool} {pc : AddPc}
    (h : stepAddThread coreCount m i t assigned pc answer = some m') : ClaimStep m i answer m' := by
  unfold stepAddThread at h
  cases pc with
  | lookUp =>
    dsimp only at h
    split at h
    · cases h; exact .none rfl rfl rfl
    · split at h <;> cases h <;> exact .none rfl rfl rfl
  | getThreadID =>
    dsimp only at h
    split at h <;> cases h <;> exact .none rfl rfl rfl
  | insert requested =>
    dsimp only at h
    split at h
    · split at h
      · split at h <;> cases h <;> exact .none rfl rfl rfl
      · cases h; exact .none rfl rfl rfl
    · cases h; exact .none rfl rfl rfl
  | notifyRegistered record =>
    dsimp only at h
    split at h <;> cases h <;> exact .none rfl rfl rfl
  | notifyFailed e => cases h; exact .none rfl rfl rfl

theorem claimStep_stepRemoveThread (key : RemoveBy) : ClaimStep m i answer (stepRemoveThread m i key) := by
  cases key <;> (simp only [stepRemoveThread]; split <;> exact .none rfl rfl rfl)

theorem claimStep_stepIteration {kind : IterationKind} {pc : IterationPc}
    (h : stepIteration m i kind pc answer = some m') : ClaimStep m i answer m' := by
  unfold stepIteration at h
  split at h
  · split at h <;> cases h
    exact .none rfl rfl rfl
  · cases h; exact .none rfl rfl rfl
  · cases h; exact .none rfl rfl rfl
  · split at h <;> cases h <;> exact .none rfl rfl rfl
  · cases h; exact .none rfl rfl rfl
  · cases h; exact .none rfl rfl rfl
  · split at h <;> cases h
    simp only [endIteration]
    split <;> exact .none rfl rfl rfl
  · cases h

/-- Every step of an operation. -/
theorem claimStep_step (h : step coreCount m (.step i answer) = some m') : ClaimStep m i answer m' := by
  simp only [step, stepOp] at h
  split at h
  · cases h
  · cases h
  · exact claimStep_stepAddThread h
  · split at h <;> cases h
    exact claimStep_stepRemoveThread _
  · split at h <;> cases h <;> exact .none rfl rfl rfl
  · exact claimStep_stepIteration h
  · rename_i hpc; exact claimStep_stepCleanUp hpc h

/-- A call starts without a claim. -/
theorem claimStep_call {request : Request} (h : step coreCount m (.call i request) = some m') :
    m.ops i = .idle ∧ m' = m.goto i request.entry ∧ (m'.ops i).claims = [] := by
  simp only [step] at h
  split at h <;> cases h
  rename_i hidle
  refine ⟨hidle, rfl, ?_⟩
  cases request <;> simp [Machine.goto, Request.entry, Pc.claims, PassPc.claims]

end ESPressio.Manager
