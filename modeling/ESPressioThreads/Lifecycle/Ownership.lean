import ESPressioThreads.Lifecycle.Steps
/-!
# The cleanup claim

Who owns the deletion of a thread is spread over `_freeOnTerminate` and
`_cleanupClaim`. Any number of `SetFreeOnTerminate`, `Shutdown` and
`TryClaimAutomaticCleanup` calls run here side by side, each an operation of
its own, in the steps that the lifecycle model gives them. Once `Shutdown` has
given up the thread, the rest of it leaves both fields alone, as all other
lifecycle calls do (`step_owner`); a destructor makes the steps of
`SetFreeOnTerminate(false)`.
-/

namespace ESPressio.Lifecycle

open Transition ESPressio.Thread

abbrev OpId := Nat

inductive OwnerRequest
  | setFreeOnTerminate (value : Bool)
  | shutdown
  | tryClaimAutomaticCleanup
  deriving DecidableEq, Repr

def OwnerRequest.entry : OwnerRequest → Pc
  | .setFreeOnTerminate value => .setFreeOnTerminate value false
  | .shutdown => .shutdown .claimManual
  | .tryClaimAutomaticCleanup => .cleanUp .loadFree

/-- `returning` is past the last access to the two fields. -/
inductive OwnerPc
  | idle
  | running (pc : Pc)
  | returning
  | returned
  deriving DecidableEq, Repr

structure Owners where
  shared : Shared
  ops : OpId → OwnerPc

inductive OwnerAction
  | call (i : OpId) (request : OwnerRequest)
  | step (i : OpId)
  /-- Everything else that happens to the thread. -/
  | others (s : Shared)

namespace Owners

def goto (x : Owners) (i : OpId) (pc : OwnerPc) : Owners := { x with ops := Function.update x.ops i pc }

end Owners

/-- Where a call stands after one of its accesses. -/
def OwnerPc.next : Next Pc → OwnerPc
  | .goto (.shutdown .loadHandle) | .goto (.cleanUp .remove) | .ret _ => .returning
  | .goto pc => .running pc

def ownerStep (x : Owners) : OwnerAction → Option Owners
  | .call i request => if x.ops i = .idle then some (x.goto i (.running request.entry)) else none
  | .step i =>
    match x.ops i with
    | .running pc =>
      (exec x.shared (.app i) pc true).map fun r => { x with shared := r.1 }.goto i (.next r.2)
    | .returning => some (x.goto i .returned)
    | .idle | .returned => none
  | .others s =>
    if s.freeOnTerminate = x.shared.freeOnTerminate ∧ s.cleanupClaim = x.shared.cleanupClaim then
      some { x with shared := s }
    else none

inductive OwnerEvent
  | began (i : OpId) (request : OwnerRequest)
  /-- `TryClaimAutomaticCleanup` won. -/
  | claimed (i : OpId)
  /-- A call returned, with the claim as it then is. -/
  | returned (i : OpId) (claim : CleanupClaim)
  deriving DecidableEq, Repr

def ownerEvent (x : Owners) : OwnerAction → Option OwnerEvent
  | .call i request => some (.began i request)
  | .step i =>
    match x.ops i with
    | .running (.cleanUp .exchangeClaim) =>
      if x.shared.cleanupClaim = .available then some (.claimed i) else none
    | .returning => some (.returned i x.shared.cleanupClaim)
    | .running _ | .idle | .returned => none
  | .others _ => none

/-- A constructed thread and its calls, with the log of what they did. -/
def ownership : System (Owners × List OwnerEvent) OwnerAction :=
  System.logged
    { init := fun x => (∃ free start precision managed, x.shared = .start free start precision managed) ∧
        x.ops = fun _ => .idle
      step := ownerStep } ownerEvent

/-- The calls after which the owner deletes the thread. -/
def OwnerRequest.revokes : OwnerRequest → Bool
  | .shutdown | .setFreeOnTerminate false => true
  | .setFreeOnTerminate true | .tryClaimAutomaticCleanup => false

/-! ## The rest of the lifecycle -/

/-- The two fields. -/
def Shared.owner (s : Shared) : Bool × CleanupClaim := (s.freeOnTerminate, s.cleanupClaim)

/-- The accesses to the two fields; the destructor makes the last two. -/
def Pc.owns : Pc → Bool
  | .setFreeOnTerminate _ _ | .shutdown .claimManual | .shutdown .storeFree | .shutdown .releaseClaim
  | .cleanUp .exchangeClaim | .cleanUp .storeFree | .cleanUp .releaseClaim => true
  | _ => false

section
variable {s s' : Shared} {p : TaskId} {ok : Bool}

@[simp] theorem Shared.owner_kill (s : Shared) (h : Option Gen) : (s.kill h).owner = s.owner := by
  cases h <;> rfl

theorem execInitialize_owner {pc : InitializePc} {next : Next InitializePc}
    (h : execInitialize s p pc ok = some (s', next)) : s'.owner = s.owner := by
  cases pc <;> simp only [execInitialize] at h
  all_goals first
    | (cases h; first | rfl | exact Shared.owner_kill _ _)
    | (split at h <;> cases h <;> rfl)
    | cases h

theorem execStart_owner {pc : StartPc} {next : Next StartPc} (h : execStart s p pc ok = some (s', next)) :
    s'.owner = s.owner := by
  unfold execStart at h
  split at h
  · cases h; rfl
  · cases h; rfl
  · obtain ⟨⟨s₁, n⟩, hs, he⟩ := Option.map_eq_some_iff.1 h
    cases he
    exact execInitialize_owner hs
  · cases h; rfl
  · cases h
  · cases h
  · cases h

theorem execShutdown_owner {pc : ShutdownPc} {next : Next ShutdownPc} (h : execShutdown s p pc = some (s', next)) :
    s'.owner = s.owner ∨ (Pc.shutdown pc).owns = true := by
  cases pc <;> simp only [execShutdown] at h
  case claimManual | storeFree | releaseClaim => exact .inr rfl
  case waitExited =>
    split at h <;> cases h
    exact .inl rfl
  all_goals (cases h; try exact .inl rfl)

theorem execWorker_owner {g : Gen} {pc : WorkerPc} {next : Next WorkerPc} (h : execWorker s g pc ok = some (s', next)) :
    s'.owner = s.owner := by
  cases pc <;> simp only [execWorker] at h
  all_goals first
    | (cases h; rfl)
    | (split at h <;> cases h <;> rfl)
    | cases h

theorem execDispatcher_owner {pc : DispatcherPc} {next : Next DispatcherPc}
    (h : execDispatcher s pc = some (s', next)) : s'.owner = s.owner := by
  cases pc <;> simp only [execDispatcher] at h
  all_goals first
    | (cases h; first | rfl | exact Shared.owner_kill _ _)
    | (split at h <;> cases h; rfl)

theorem execCleanUp_owner {pc : CleanUpPc} {next : Next CleanUpPc} (h : execCleanUp s p pc ok = some (s', next)) :
    s'.owner = s.owner ∨ (Pc.cleanUp pc).owns = true := by
  cases pc <;> simp only [execCleanUp] at h
  case exchangeClaim | storeFree | releaseClaim => exact .inr rfl
  all_goals first
    | (cases h; first | exact .inl rfl | exact .inl (Shared.owner_kill _ _))
    | cases h

theorem exec_owner {pc : Pc} {next : Next Pc} (h : exec s p pc ok = some (s', next)) :
    s'.owner = s.owner ∨ pc.owns = true := by
  unfold exec at h
  split at h
  · cases h
  · cases h
  · exact .inr rfl
  · exact .inr rfl
  · cases h; exact .inl rfl
  · cases h; exact .inl rfl
  all_goals
    obtain ⟨⟨s₁, n⟩, hs, he⟩ := Option.map_eq_some_iff.1 h
    cases he
  · exact .inl (execInitialize_owner hs)
  · exact .inl (execStart_owner hs)
  · exact execShutdown_owner hs
  · exact .inl (execWorker_owner hs)
  · exact .inl (execDispatcher_owner hs)
  · exact execCleanUp_owner hs

/-- In every step of the lifecycle the two fields stay, or a call makes one of
these accesses. -/
theorem step_owner {w w' : World} (h : step w (.step p ok) = some w') :
    w'.shared.owner = w.shared.owner ∨ ∃ f, w.top p = some f ∧ f.pc.owns = true := by
  obtain ⟨-, a, f, f', -, htop, -, hstep, -⟩ := step_update h
  generalize w'.shared = s' at hstep ⊢
  rcases hstep.shared_cases with ⟨_, _, _, hs⟩ | ⟨next, hex⟩
  · exact .inl (by rw [hs]; rfl)
  · exact (exec_owner hex).imp id fun ho => ⟨f, htop, ho⟩

end

/-! ## One step -/

/-- A call that has yet to give the thread up. -/
def OwnerPc.revoking : OwnerPc → Bool
  | .running (.setFreeOnTerminate false _) | .running (.shutdown _) => true
  | _ => false

/-- A call that has yet to hand the thread to automatic cleanup. -/
def OwnerPc.allowing : OwnerPc → Bool
  | .running (.setFreeOnTerminate true _) => true
  | _ => false

/-- The program counters of the calls. -/
def OwnerPc.Sound : OwnerPc → Prop
  | .running (.setFreeOnTerminate _ _) | .running (.shutdown .claimManual) | .running (.shutdown .storeFree)
  | .running (.shutdown .releaseClaim) | .running (.cleanUp .loadFree) | .running (.cleanUp .loadState)
  | .running (.cleanUp .exchangeClaim) | .idle | .returning | .returned => True
  | .running _ => False

/-- A step of call `i`, as far as the claim goes. -/
inductive OwnerStep (x : Owners) (i : OpId) (y : Owners) : Option OwnerEvent → Prop
  | quiet (pc : OwnerPc) : y.shared.cleanupClaim = x.shared.cleanupClaim → x.ops i ≠ .returned → x.ops i ≠ .idle →
      pc.revoking = (x.ops i).revoking → pc.allowing = (x.ops i).allowing → pc ≠ .idle →
      y.ops = Function.update x.ops i pc → OwnerStep x i y none
  | revoked (pc : OwnerPc) : (x.ops i).revoking = true →
      y.shared.cleanupClaim = (x.shared.exchangeClaim .available .manual).cleanupClaim →
      pc.allowing = false → pc ≠ .idle → y.ops = Function.update x.ops i pc → OwnerStep x i y none
  | allowed : (x.ops i).allowing = true →
      y.shared.cleanupClaim = (x.shared.exchangeClaim .manual .available).cleanupClaim →
      y.ops = Function.update x.ops i .returning → OwnerStep x i y none
  | claimed : x.ops i = .running (.cleanUp .exchangeClaim) → x.shared.cleanupClaim = .available →
      y.shared.cleanupClaim = .automatic → y.ops = Function.update x.ops i .returning →
      OwnerStep x i y (some (.claimed i))
  | returned : x.ops i = .returning → y.shared = x.shared → y.ops = Function.update x.ops i .returned →
      OwnerStep x i y (some (.returned i x.shared.cleanupClaim))

variable {x y : Owners} {i j : OpId} {log : List OwnerEvent} {e : Option OwnerEvent}

/-- A step inside a call. -/
theorem ownerStep_running {pc : Pc} {s : Shared} {next : Next Pc} (hpc : x.ops i = .running pc)
    (hsound : (OwnerPc.running pc).Sound) (hex : exec x.shared (.app i) pc true = some (s, next)) :
    OwnerStep x i ({ x with shared := s }.goto i (.next next)) (ownerEvent x (.step i)) ∧
      (OwnerPc.next next).Sound := by
  cases pc with
  | setFreeOnTerminate value stored =>
    cases stored with
    | false =>
      cases hex
      refine ⟨?_, trivial⟩
      rw [show ownerEvent x (.step i) = none by simp only [ownerEvent, hpc]]
      exact .quiet _ rfl (by simp [hpc]) (by simp [hpc]) (by rw [hpc]; cases value <;> rfl)
        (by rw [hpc]; cases value <;> rfl) (by simp [OwnerPc.next]) rfl
    | true =>
      cases hex
      refine ⟨?_, trivial⟩
      rw [show ownerEvent x (.step i) = none by simp only [ownerEvent, hpc]]
      cases value with
      | true => exact .allowed (by rw [hpc]; rfl) rfl rfl
      | false => exact .revoked .returning (by rw [hpc]; rfl) rfl rfl (by simp) rfl
  | shutdown t =>
    rw [show ownerEvent x (.step i) = none by simp only [ownerEvent, hpc]]
    cases t with
    | claimManual =>
      cases hex
      exact ⟨.revoked (.running (.shutdown .storeFree)) (by rw [hpc]; rfl) rfl rfl (by simp) rfl, trivial⟩
    | storeFree =>
      cases hex
      exact ⟨.quiet (.running (.shutdown .releaseClaim)) rfl (by simp [hpc]) (by simp [hpc]) (by rw [hpc]; rfl)
        (by rw [hpc]; rfl) (by simp) rfl, trivial⟩
    | releaseClaim =>
      cases hex
      exact ⟨.revoked .returning (by rw [hpc]; rfl) rfl rfl (by simp) rfl, trivial⟩
    | _ => exact hsound.elim
  | cleanUp t =>
    have hquiet : ∀ pc : OwnerPc, pc.revoking = false → pc.allowing = false → pc ≠ .idle →
        OwnerStep x i (x.goto i pc) none := fun pc hr ha hd =>
      .quiet pc rfl (by simp [hpc]) (by simp [hpc]) (by rw [hpc, hr]; rfl) (by rw [hpc, ha]; rfl) hd rfl
    cases t with
    | loadFree =>
      rw [show ownerEvent x (.step i) = none by simp only [ownerEvent, hpc]]
      cases hex
      split
      · exact ⟨hquiet (.running (.cleanUp .loadState)) rfl rfl (by simp), trivial⟩
      · exact ⟨hquiet .returning rfl rfl (by simp), trivial⟩
    | loadState =>
      rw [show ownerEvent x (.step i) = none by simp only [ownerEvent, hpc]]
      cases hex
      split
      · exact ⟨hquiet (.running (.cleanUp .exchangeClaim)) rfl rfl (by simp), trivial⟩
      · exact ⟨hquiet .returning rfl rfl (by simp), trivial⟩
    | exchangeClaim =>
      have hevent : ownerEvent x (.step i) =
          if x.shared.cleanupClaim = .available then some (.claimed i) else none := by
        simp only [ownerEvent, hpc]
      rw [hevent]
      by_cases hc : x.shared.cleanupClaim = .available
      · simp only [exec, execCleanUp, hc, if_true, Option.map_some] at hex
        cases hex
        rw [if_pos hc]
        exact ⟨.claimed hpc hc rfl rfl, trivial⟩
      · simp only [exec, execCleanUp, hc, if_false, Option.map_some] at hex
        cases hex
        rw [if_neg hc]
        exact ⟨hquiet .returning rfl rfl (by simp), trivial⟩
    | _ => exact hsound.elim
  | _ => exact hsound.elim

theorem ownerStep_cases (hsound : (x.ops i).Sound) (h : ownerStep x (.step i) = some y) :
    OwnerStep x i y (ownerEvent x (.step i)) ∧ ∃ pc, y.ops = Function.update x.ops i pc ∧ pc.Sound := by
  simp only [ownerStep] at h
  split at h
  · rename_i pc hpc
    obtain ⟨⟨s, next⟩, hex, rfl⟩ := Option.map_eq_some_iff.1 h
    rw [hpc] at hsound
    obtain ⟨hstep, hnext⟩ := ownerStep_running hpc hsound hex
    exact ⟨hstep, _, rfl, hnext⟩
  · rename_i hpc
    cases h
    rw [show ownerEvent x (.step i) = some (.returned i x.shared.cleanupClaim) by simp only [ownerEvent, hpc]]
    exact ⟨.returned hpc rfl rfl, .returned, rfl, trivial⟩
  · cases h
  · cases h

/-! ## Runs -/

def claims (log : List OwnerEvent) : List OwnerEvent :=
  log.filter fun
    | .claimed _ => true
    | .began _ _ | .returned _ _ => false

/-- Every `SetFreeOnTerminate(true)` of `log` has returned in `l`. -/
def AllowedBefore (l log : List OwnerEvent) : Prop :=
  ∀ j, .began j (.setFreeOnTerminate true) ∈ log → ∃ claim, .returned j claim ∈ l

structure OwnerInv (x : Owners × List OwnerEvent) : Prop where
  sound : ∀ i, (x.1.ops i).Sound
  begun : ∀ i request, .began i request ∈ x.2 → x.1.ops i ≠ .idle
  returned : ∀ i claim, .returned i claim ∈ x.2 → x.1.ops i = .returned
  allowing : ∀ i, (x.1.ops i).allowing = true → .began i (.setFreeOnTerminate true) ∈ x.2
  claimed : ∀ j, .claimed j ∈ x.2 → x.1.shared.cleanupClaim = .automatic
  once : (claims x.2).length ≤ 1
  /-- A call that has given the thread up leaves no claim to take. -/
  revoked : ∀ l₀ i request rest, x.2 = l₀ ++ .began i request :: rest → request.revokes = true →
    AllowedBefore l₀ x.2 → (x.1.ops i).revoking = true ∨ x.1.shared.cleanupClaim ≠ .available
  after : ∀ l₀ i request l₁ claim l₂, x.2 = l₀ ++ .began i request :: (l₁ ++ .returned i claim :: l₂) →
    request.revokes = true → claim ≠ .automatic → AllowedBefore l₀ x.2 →
    x.1.shared.cleanupClaim = .manual ∧ ∀ j, .claimed j ∉ l₂

theorem Shared.exchangeClaim_manual (s : Shared) : (s.exchangeClaim .available .manual).cleanupClaim ≠ .available := by
  unfold Shared.exchangeClaim
  split
  · simp
  · assumption

theorem OwnerStep.others (hs : OwnerStep x i y e) (hj : j ≠ i) : y.ops j = x.ops j := by
  cases hs with
  | quiet pc _ _ _ _ _ _ ho => rw [ho, Function.update_of_ne hj]
  | revoked pc _ _ _ _ ho => rw [ho, Function.update_of_ne hj]
  | allowed _ _ ho => rw [ho, Function.update_of_ne hj]
  | claimed _ _ _ ho => rw [ho, Function.update_of_ne hj]
  | returned _ _ ho => rw [ho, Function.update_of_ne hj]

/-- A call that moves has begun, and has not returned. -/
theorem OwnerStep.live (hs : OwnerStep x i y e) : x.ops i ≠ .idle ∧ x.ops i ≠ .returned := by
  cases hs with
  | quiet _ _ hd hi => exact ⟨hi, hd⟩
  | revoked _ hr =>
    constructor <;> (intro h; rw [h] at hr; cases hr)
  | allowed ha =>
    constructor <;> (intro h; rw [h] at ha; cases ha)
  | claimed hpc => rw [hpc]; simp
  | returned hpc => rw [hpc]; simp

theorem AllowedBefore.shorter {l : List OwnerEvent} (h : AllowedBefore l (log ++ e.toList)) : AllowedBefore l log :=
  fun j hj => h j (List.mem_append_left _ hj)

/-- No call can hand the thread back to automatic cleanup any more. -/
theorem OwnerInv.not_allowing {l : List OwnerEvent} (h : OwnerInv (x, log)) (ha : AllowedBefore l log)
    (hl : ∀ e ∈ l, e ∈ log) : (x.ops i).allowing = false := by
  by_contra hallow
  rw [Bool.not_eq_false] at hallow
  obtain ⟨claim, hc⟩ := ha i (h.allowing i hallow)
  have hret : x.ops i = .returned := h.returned i claim (hl _ hc)
  rw [hret] at hallow
  cases hallow

section Step

/-- How a step may change the claim while nobody hands the thread back. -/
theorem OwnerStep.claim (hs : OwnerStep x i y e) (ha : (x.ops i).allowing = false) :
    y.shared.cleanupClaim = x.shared.cleanupClaim ∨
    ((x.ops i).revoking = true ∧ y.shared.cleanupClaim = (x.shared.exchangeClaim .available .manual).cleanupClaim) ∨
    (x.shared.cleanupClaim = .available ∧ y.shared.cleanupClaim = .automatic ∧ e = some (.claimed i)) := by
  cases hs with
  | quiet _ hc => exact .inl hc
  | revoked _ hr hc => exact .inr (.inl ⟨hr, hc⟩)
  | allowed hallow => rw [ha] at hallow; cases hallow
  | claimed _ havail hauto => exact .inr (.inr ⟨havail, hauto, rfl⟩)
  | returned _ hshared => exact .inl (by rw [hshared])

theorem OwnerStep.event (hs : OwnerStep x i y e) :
    (∀ j request, e ≠ some (.began j request)) ∧ (∀ j, e = some (.claimed j) → x.shared.cleanupClaim = .available) ∧
      ∀ j claim, e = some (.returned j claim) → j = i ∧ x.ops i = .returning ∧ claim = x.shared.cleanupClaim ∧
        y.shared = x.shared ∧ y.ops i = .returned := by
  cases hs with
  | quiet => exact ⟨nofun, nofun, nofun⟩
  | revoked => exact ⟨nofun, nofun, nofun⟩
  | allowed => exact ⟨nofun, nofun, nofun⟩
  | claimed _ ha => exact ⟨nofun, fun _ _ => ha, nofun⟩
  | returned hpc hshared ho =>
    refine ⟨nofun, nofun, fun j claim he => ?_⟩
    cases he
    exact ⟨rfl, hpc, rfl, hshared, by rw [ho, Function.update_self]⟩

/-- A call that gives the thread up does so with its last access. -/
theorem OwnerStep.revoking (hs : OwnerStep x i y e) (hr : (x.ops i).revoking = true) :
    (y.ops i).revoking = true ∨ y.shared.cleanupClaim ≠ .available := by
  cases hs with
  | quiet pc _ _ _ hsame _ _ ho =>
    left
    rw [ho, Function.update_self, hsame]
    exact hr
  | revoked _ _ hc =>
    right
    rw [hc]
    exact x.shared.exchangeClaim_manual
  | allowed ha =>
    unfold OwnerPc.revoking at hr
    split at hr
    · rename_i hpc; rw [hpc] at ha; cases ha
    · rename_i hpc; rw [hpc] at ha; cases ha
    · cases hr
  | claimed hpc => rw [hpc] at hr; cases hr
  | returned hpc => rw [hpc] at hr; cases hr

theorem OwnerInv.revoked_step (h : OwnerInv (x, log)) (hs : OwnerStep x i y e) :
    ∀ l₀ j request rest, log ++ e.toList = l₀ ++ .began j request :: rest → request.revokes = true →
      AllowedBefore l₀ (log ++ e.toList) → (y.ops j).revoking = true ∨ y.shared.cleanupClaim ≠ .available := by
  intro l₀ j request rest hsplit hrev hall
  rcases System.split_append hsplit with ⟨l₃, hlog, -⟩ | ⟨he, -⟩
  · have hquiet := h.not_allowing (i := i) hall.shorter fun e he => by rw [hlog]; exact List.mem_append_left _ he
    rcases h.revoked l₀ j request l₃ hlog hrev hall.shorter with hr | hne
    · by_cases hj : j = i
      · subst hj
        exact hs.revoking hr
      · left
        rw [hs.others hj]
        exact hr
    · right
      rcases hs.claim hquiet with hc | ⟨-, hc⟩ | ⟨-, hc, -⟩
      · rw [hc]; exact hne
      · rw [hc]; exact x.shared.exchangeClaim_manual
      · rw [hc]; simp
  · exact absurd he (hs.event.1 j request)

/-- After the return the claim stays with the owner. -/
theorem OwnerInv.after_step (h : OwnerInv (x, log)) (hs : OwnerStep x i y e) :
    ∀ l₀ j request l₁ claim l₂,
      log ++ e.toList = l₀ ++ .began j request :: (l₁ ++ .returned j claim :: l₂) → request.revokes = true →
      claim ≠ .automatic → AllowedBefore l₀ (log ++ e.toList) →
      y.shared.cleanupClaim = .manual ∧ ∀ k, .claimed k ∉ l₂ := by
  intro l₀ j request l₁ claim l₂ hsplit hrev hclaim hall
  -- Either the return was logged before, or this step is the return.
  have hsplit' : log ++ e.toList = (l₀ ++ .began j request :: l₁) ++ .returned j claim :: l₂ := by
    rw [hsplit]
    simp
  have hmem : ∀ l, log = (l₀ ++ .began j request :: l₁) ++ l → ∀ e ∈ l₀, e ∈ log := fun l hl e he => by
    rw [hl]
    simp [he]
  rcases System.split_append hsplit' with ⟨l₃, hlog, rfl⟩ | ⟨rfl, hlog, rfl⟩
  · have hquiet := h.not_allowing (i := i) hall.shorter (hmem _ hlog)
    obtain ⟨hmanual, hnone⟩ := h.after l₀ j request l₁ claim l₃ (by rw [hlog]; simp) hrev hclaim hall.shorter
    have hmanual : x.shared.cleanupClaim = .manual := hmanual
    refine ⟨?_, fun k hk => ?_⟩
    · rcases hs.claim hquiet with hc | ⟨-, hc⟩ | ⟨ha, -, -⟩
      · rw [hc]; exact hmanual
      · rw [hc]
        simp [Shared.exchangeClaim, hmanual]
      · rw [hmanual] at ha; cases ha
    · rcases List.mem_append.1 hk with hk | hk
      · exact hnone k hk
      · have ha := hs.event.2.1 k (by simpa using hk)
        rw [hmanual] at ha
        cases ha
  · obtain ⟨rfl, hpc, rfl, hshared, -⟩ := hs.event.2.2 j claim rfl
    have hheld := h.revoked l₀ j request l₁ hlog.symm hrev hall.shorter
    refine ⟨?_, nofun⟩
    rw [hshared]
    rcases hheld with hr | hne
    · have hr : (x.ops j).revoking = true := hr
      rw [hpc] at hr
      cases hr
    · have hne : x.shared.cleanupClaim ≠ .available := hne
      cases hc : x.shared.cleanupClaim with
      | available => exact absurd hc hne
      | manual => rfl
      | automatic => exact absurd hc hclaim

/-- What becomes of the call that moves. -/
theorem OwnerStep.moved (hs : OwnerStep x i y e) :
    y.ops i ≠ .idle ∧ ((y.ops i).allowing = true → (x.ops i).allowing = true) := by
  cases hs with
  | quiet pc _ _ _ _ hsame hlive ho =>
    rw [ho, Function.update_self]
    exact ⟨hlive, fun h => hsame ▸ h⟩
  | revoked pc _ _ hno hlive ho =>
    rw [ho, Function.update_self]
    exact ⟨hlive, fun h => by rw [hno] at h; cases h⟩
  | allowed ha _ ho =>
    rw [ho, Function.update_self]
    exact ⟨by simp, fun _ => ha⟩
  | claimed _ _ _ ho =>
    rw [ho, Function.update_self]
    exact ⟨by simp, nofun⟩
  | returned _ _ ho =>
    rw [ho, Function.update_self]
    exact ⟨by simp, nofun⟩

/-- The claim is final once it is automatic. -/
theorem OwnerStep.automatic (hs : OwnerStep x i y e) (h : x.shared.cleanupClaim = .automatic) :
    y.shared.cleanupClaim = .automatic := by
  cases hs with
  | quiet _ hc => rw [hc, h]
  | revoked _ _ hc => rw [hc]; simp [Shared.exchangeClaim, h]
  | allowed _ hc => rw [hc]; simp [Shared.exchangeClaim, h]
  | claimed _ _ hauto => exact hauto
  | returned _ hshared => rw [hshared, h]

theorem OwnerStep.claims (hs : OwnerStep x i y e) : Lifecycle.claims e.toList = [] ∨
    (x.shared.cleanupClaim = .available ∧ y.shared.cleanupClaim = .automatic ∧
      Lifecycle.claims e.toList = [.claimed i]) := by
  cases hs with
  | quiet | revoked | allowed | returned => exact .inl rfl
  | claimed _ ha hauto => exact .inr ⟨ha, hauto, rfl⟩

theorem OwnerInv.claims_nil (h : OwnerInv (x, log)) (ha : x.shared.cleanupClaim = .available) : claims log = [] := by
  refine List.filter_eq_nil_iff.2 fun e he => ?_
  cases e with
  | claimed j =>
    have hauto : x.shared.cleanupClaim = .automatic := h.claimed j he
    rw [ha] at hauto
    cases hauto
  | began | returned => simp

theorem OwnerInv.stepped (h : OwnerInv (x, log)) (hs : OwnerStep x i y e)
    (hsound : ∃ pc, y.ops = Function.update x.ops i pc ∧ pc.Sound) : OwnerInv (y, log ++ e.toList) where
  sound j := by
    obtain ⟨pc, ho, hpc⟩ := hsound
    show (y.ops j).Sound
    rw [ho, Function.update_apply]
    split
    · exact hpc
    · exact h.sound j
  begun j request hj := by
    show y.ops j ≠ .idle
    rcases List.mem_append.1 hj with hj | hj
    · by_cases hji : j = i
      · rw [hji]; exact hs.moved.1
      · rw [hs.others hji]; exact h.begun j request hj
    · exact absurd (by simpa using hj) (hs.event.1 j request)
  returned j claim hj := by
    show y.ops j = .returned
    rcases List.mem_append.1 hj with hj | hj
    · have hret : x.ops j = .returned := h.returned j claim hj
      have hji : j ≠ i := by
        rintro rfl
        exact hs.live.2 hret
      rw [hs.others hji, hret]
    · obtain ⟨rfl, -, -, -, hret⟩ := hs.event.2.2 j claim (by simpa using hj)
      exact hret
  allowing j hj := by
    refine List.mem_append_left _ (h.allowing j ?_)
    by_cases hji : j = i
    · subst hji
      exact hs.moved.2 hj
    · have hj : (y.ops j).allowing = true := hj
      rwa [hs.others hji] at hj
  claimed j hj := by
    rcases List.mem_append.1 hj with hj | hj
    · exact hs.automatic (h.claimed j hj)
    · rcases hs.claims with hno | ⟨-, hauto, -⟩
      · have hmem : .claimed j ∈ claims e.toList := List.mem_filter.2 ⟨hj, rfl⟩
        rw [hno] at hmem
        cases hmem
      · exact hauto
  once := by
    have hold : (claims log).length ≤ 1 := h.once
    show (claims (log ++ e.toList)).length ≤ 1
    rw [claims, List.filter_append, ← claims, ← claims]
    rcases hs.claims with hno | ⟨ha, -, hone⟩
    · rw [hno, List.append_nil]
      exact hold
    · rw [hone, h.claims_nil ha]
      exact Nat.le_refl 1
  revoked := h.revoked_step hs
  after := h.after_step hs

end Step

theorem OwnerInv.called (h : OwnerInv (x, log)) (hidle : x.ops i = .idle) (request : OwnerRequest) :
    OwnerInv (x.goto i (.running request.entry), log ++ [.began i request]) := by
  have hother : ∀ j, j ≠ i → (x.goto i (.running request.entry)).ops j = x.ops j := fun j hj => by
    simp [Owners.goto, hj]
  have hself : (x.goto i (.running request.entry)).ops i = .running request.entry := by simp [Owners.goto]
  have hnew : ∀ j request, .began j request ∈ log → j ≠ i := by
    rintro j request hj rfl
    exact h.begun j request hj hidle
  -- The event of the call is the last one of the log, and is no return.
  have hlast : ∀ {l₁ l₂ : List OwnerEvent} {e : OwnerEvent}, log ++ [.began i request] = l₁ ++ e :: l₂ →
      (∃ l₃, log = l₁ ++ e :: l₃ ∧ l₂ = l₃ ++ [.began i request]) ∨ (e = .began i request ∧ l₁ = log ∧ l₂ = []) := by
    intro l₁ l₂ e he
    rcases System.split_append (e := some (OwnerEvent.began i request)) he with hl | ⟨hl, hr⟩
    · exact .inl hl
    · exact .inr ⟨(Option.some.inj hl).symm, hr⟩
  have hshorter : ∀ {l}, AllowedBefore l (log ++ [.began i request]) → AllowedBefore l log :=
    fun hall j hj => hall j (List.mem_append_left _ hj)
  refine ⟨fun j => ?_, fun j r hj => ?_, fun j claim hj => ?_, fun j hj => ?_, fun j hj => ?_, ?_, ?_, ?_⟩
  · by_cases hj : j = i
    · subst hj
      rw [hself]
      cases request <;> trivial
    · rw [hother j hj]; exact h.sound j
  · by_cases hji : j = i
    · subst hji
      rw [hself]
      simp
    · rw [hother j hji]
      refine h.begun j r ?_
      rcases List.mem_append.1 hj with hj | hj
      · exact hj
      · cases List.mem_singleton.1 hj; exact absurd rfl hji
  · have hj : .returned j claim ∈ log := by simpa using hj
    have hret : x.ops j = .returned := h.returned j claim hj
    rw [hother j (by rintro rfl; rw [hidle] at hret; cases hret), hret]
  · by_cases hji : j = i
    · subst hji
      rw [hself] at hj
      refine List.mem_append_right _ (List.mem_singleton.2 ?_)
      cases request with
      | setFreeOnTerminate value => cases value <;> first | rfl | cases hj
      | shutdown | tryClaimAutomaticCleanup => cases hj
    · rw [hother j hji] at hj
      exact List.mem_append_left _ (h.allowing j hj)
  · exact h.claimed j (by simpa using hj)
  · have hold : (claims log).length ≤ 1 := h.once
    simpa [claims] using hold
  · intro l₀ j r rest hsplit hrev hall
    rcases hlast hsplit with ⟨l₃, hlog, rfl⟩ | ⟨he, -, -⟩
    · have hj : j ≠ i := hnew j r (by rw [hlog]; simp)
      rw [hother j hj]
      exact h.revoked l₀ j r l₃ hlog hrev (hshorter hall)
    · cases he
      left
      rw [hself]
      cases request with
      | setFreeOnTerminate value => cases value <;> first | rfl | cases hrev
      | shutdown => rfl
      | tryClaimAutomaticCleanup => cases hrev
  · intro l₀ j r l₁ claim l₂ hsplit hrev hclaim hall
    have hsplit' : log ++ [.began i request] = (l₀ ++ .began j r :: l₁) ++ .returned j claim :: l₂ := by
      simpa using hsplit
    rcases hlast hsplit' with ⟨l₃, hlog, rfl⟩ | ⟨he, -, -⟩
    · obtain ⟨hmanual, hnone⟩ := h.after l₀ j r l₁ claim l₃ (by rw [hlog]; simp) hrev hclaim (hshorter hall)
      exact ⟨hmanual, fun k hk => hnone k (by simpa using hk)⟩
    · cases he

theorem ownerInv_of_step {a : OwnerAction} {x y : Owners × List OwnerEvent} (h : OwnerInv x)
    (hs : ownership.step x a = some y) : OwnerInv y ∧
      (x.1.shared.cleanupClaim = .automatic → y.1.shared.cleanupClaim = .automatic) := by
  obtain ⟨x, log⟩ := x
  obtain ⟨y, log'⟩ := y
  obtain ⟨hstep, rfl⟩ := System.logged_step.1 hs
  have hstep : ownerStep x a = some y := hstep
  cases a with
  | call i request =>
    simp only [ownerStep] at hstep
    split at hstep <;> cases hstep
    rename_i hidle
    exact ⟨h.called hidle request, id⟩
  | step i =>
    obtain ⟨hcase, hsound⟩ := ownerStep_cases (h.sound i) hstep
    exact ⟨h.stepped hcase hsound, hcase.automatic⟩
  | others s =>
    simp only [ownerStep] at hstep
    split at hstep <;> cases hstep
    rename_i hsame
    have hnone : log ++ (ownerEvent x (.others s)).toList = log := List.append_nil log
    simp only [hnone]
    refine ⟨⟨h.sound, h.begun, h.returned, h.allowing, fun j hj => hsame.2.trans (h.claimed j hj), h.once, ?_, ?_⟩,
      fun hauto => hsame.2.trans hauto⟩
    · intro l₀ j r rest hsplit hrev hall
      rcases h.revoked l₀ j r rest hsplit hrev hall with hr | hne
      · exact .inl hr
      · exact .inr (by rw [hsame.2]; exact hne)
    · intro l₀ j r l₁ claim l₂ hsplit hrev hclaim hall
      obtain ⟨hmanual, hnone⟩ := h.after l₀ j r l₁ claim l₂ hsplit hrev hclaim hall
      exact ⟨hsame.2.trans hmanual, hnone⟩

/-- The ownership contract, as the log of the calls tells it. -/
structure OwnershipLog (x : Owners × List OwnerEvent) : Prop where
  /-- `TryClaimAutomaticCleanup` wins at most once. -/
  once : (claims x.2).length ≤ 1
  final : x.1.shared.cleanupClaim = .automatic →
    ∀ y, ownership.Leads (fun _ _ => True) x y → y.1.shared.cleanupClaim = .automatic
  /-- After a call that gave the thread up and found it unclaimed, nothing claims
  it unless a `SetFreeOnTerminate(true)` overlaps or follows that call. -/
  revoked : ∀ l₀ i request l₁ claim l₂, x.2 = l₀ ++ .began i request :: (l₁ ++ .returned i claim :: l₂) →
    request.revokes = true → claim ≠ .automatic → AllowedBefore l₀ x.2 → ∀ j, .claimed j ∉ l₂

theorem cleanup_ownership (x : Owners × List OwnerEvent) (h : ownership.Reachable x) : OwnershipLog x := by
  have hinv : OwnerInv x := by
    refine h.invariant (fun x hx => ?_) fun x a y hi _ hs => (ownerInv_of_step hi hs).1
    obtain ⟨x, log⟩ := x
    obtain ⟨⟨-, hops⟩, hlog⟩ := hx
    cases hlog
    have hidle : ∀ i, x.ops i = .idle := fun i => by rw [hops]
    refine ⟨fun i => ?_, nofun, nofun, fun i hi => ?_, nofun, by simp [claims], fun l₀ _ _ _ he => ?_,
      fun l₀ _ _ _ _ _ he => ?_⟩
    · rw [hidle]; trivial
    · rw [hidle] at hi; cases hi
    · exact absurd he (by simp)
    · exact absurd he (by simp)
  refine ⟨hinv.once, fun hauto y hl => ?_, fun l₀ i request l₁ claim l₂ hsplit hrev hclaim hall => ?_⟩
  · have hboth := hl.invariant (I := fun x => OwnerInv x ∧ x.1.shared.cleanupClaim = .automatic) ⟨hinv, hauto⟩
      fun x a y hi _ hs => ⟨(ownerInv_of_step hi.1 hs).1, (ownerInv_of_step hi.1 hs).2 hi.2⟩
    exact hboth.2
  · exact (hinv.after l₀ i request l₁ claim l₂ hsplit hrev hclaim hall).2

/-- `SetFreeOnTerminate(true)` returns, then a `Shutdown` overtakes a claim that
has read the policy and the state. -/
def shutdownOvertakes : List OwnerAction :=
  [.call 0 (.setFreeOnTerminate true), .step 0, .step 0, .step 0,
    .others { Shared.start true true false true with threadState := .terminated }, .call 1 .tryClaimAutomaticCleanup,
    .step 1, .step 1, .call 2 .shutdown, .step 2, .step 2, .step 2, .step 2, .step 1, .step 1]

theorem shutdown_keeps_thread : ∃ x, ownership.Reachable x ∧
    x.2 = [.began 0 (.setFreeOnTerminate true), .returned 0 .available, .began 1 .tryClaimAutomaticCleanup,
      .began 2 .shutdown, .returned 2 .manual, .returned 1 .manual] ∧ OwnershipLog x := by
  have hrun : (ownership.replay (⟨.start true true false true, fun _ => .idle⟩, []) shutdownOvertakes).map
      (fun x => x.2) =
      some [.began 0 (.setFreeOnTerminate true), .returned 0 .available, .began 1 .tryClaimAutomaticCleanup,
        .began 2 .shutdown, .returned 2 .manual, .returned 1 .manual] := by
    decide +kernel
  obtain ⟨x, hs, hp⟩ := Option.map_eq_some_iff.1 hrun
  have hinit : ownership.init (⟨.start true true false true, fun _ => .idle⟩, []) :=
    ⟨⟨⟨true, true, false, true, rfl⟩, rfl⟩, rfl⟩
  have hr := System.reachable_of_replay hinit hs
  exact ⟨x, hr, hp, cleanup_ownership x hr⟩

end ESPressio.Lifecycle
