import ESPressioThreads.Lib.Linearizability
import ESPressioThreads.Manager.Fence
/-!
# The manager is a directory

The calls of `AddThread`, `RemoveThread`, the iterations and the cleanup passes
of any tasks overlap, and foreign code runs in the middle of most of them. What
they return is still what they would return if they were made one after the
other: each has one locked section at which it takes effect.

An iteration has returned when it is through with its snapshot, before its
guard ends. A pass that the last `IterationGuard` runs is a call of its own. A
call that throws is one that has not returned: it may have taken effect or not.

Two things are not what one caller after the other would see. Whether a pass is
deferred is up to the iterations in progress, so a deferred pass fits every
registry. And a pass counts the records it examines before it claims, while it
takes effect when it removes: other tasks may register in between.
-/

namespace ESPressio.Manager

open Transition ESPressio.Thread Linearizability

/-- What a call returns. An iteration also shows what it visited, and
`InitializeWithResults` the IDs that it reports on. -/
inductive Response
  | registered (coreID : Nat) (id : UInt8)
  | removed
  | iterated (visited : List Target)
  | found (b : Bool) (visited : List Target)
  | initialized (visited : List Target) (ids : List UInt8)
  | cleanup (result : CleanupResult)
  deriving DecidableEq, Repr

/-- What a call shows as it returns; an iteration has shown it before. -/
def Outcome.response : Outcome → Option Response
  | .core coreID id => some (.registered coreID id)
  | .removed => some .removed
  | .cleanup r => some (.cleanup r)
  | .iterated | .found _ | .initialized _ | .thrown | .stdTerminate => none

/-- What an iteration shows when it is through with its snapshot. -/
def Visit.response (v : Visit) : Outcome → Option Response
  | .iterated => some (.iterated v.snapshot)
  | .found b => some (.found b v.snapshot)
  | .initialized results => some (.initialized v.snapshot (results.map Prod.fst))
  | .core _ _ | .removed | .cleanup _ | .thrown | .stdTerminate => none

/-- What an iteration with this snapshot returns. -/
def IterationKind.response (snapshot : List Target) : IterationKind → Response
  | .forEachThread => .iterated snapshot
  | .withThread _ => .found (!snapshot.isEmpty) snapshot
  | .initializeWithResults => .initialized snapshot (snapshot.map (·.id))

/-- The result of a deferred pass over `count` records. -/
def deferredResult (active count : Nat) : CleanupResult :=
  { wasDeferred := true, activeIterationCount := active, threadCountBefore := count, threadCountAfter := count }

/-- The result of a pass that examined a snapshot. -/
def passResult (examined claimed removed deleted after : Nat) : CleanupResult :=
  { threadsExamined := examined, threadsClaimed := claimed, threadsRemoved := removed, threadsDeleted := deleted
    threadCountBefore := examined, threadCountAfter := after }

/-- A registry that is used by one caller after the other, on `n` processors. -/
inductive Directory (n : Nat) : Spec Registry Request Response
  | registered (r : Registry) (t : ThreadPtr) (assigned : Bool) (record : ThreadRecord) : t ≠ nullptr →
      r.findThread t = some record →
      Directory n r (.addThread t assigned) (.registered record.coreID record.id) r
  | inserted (r r' : Registry) (t : ThreadPtr) (assigned : Bool) (requested : UInt8) (record : ThreadRecord) :
      t ≠ nullptr → r.insert n t assigned requested = .ok (r', record, true) →
      Directory n r (.addThread t assigned) (.registered record.coreID record.id) r'
  | removed (r : Registry) (key : RemoveBy) : Directory n r (.removeThread key) .removed (r.remove key)
  | visited (r : Registry) (kind : IterationKind) :
      Directory n r (.iteration kind) (kind.response (snapshotOf r kind)) r
  | deferred (r : Registry) (active : Nat) : 0 < active →
      Directory n r .cleanUp (.cleanup (deferredResult active r.threads.length)) r
  | cleaned (r : Registry) (claimed : List ClaimedCleanupRecord) (examined removed : Nat) :
      claimed.length ≤ examined → (∀ c ∈ claimed, c.removed = false) →
      removed = (doomed (r.removeClaimed claimed).2).length →
      Directory n r .cleanUp (.cleanup (passResult examined claimed.length removed removed
        (r.removeClaimed claimed).1.threads.length)) (r.removeClaimed claimed).1

/-- A public call, or the pass that its `IterationGuard` runs. -/
abbrev CallId := OpId × Bool

/-- The calls and returns that operation `i` shows when it has come to `pc`. -/
def shows (i : OpId) : Pc → Option (Visible CallId Request Response)
  | .cleanUp (.iterationGuard _) .lockIteration => some (.call (i, true) .cleanUp)
  | .iteration _ (.endIteration v outcome) => (v.response outcome).map (.ret (i, false))
  | .returned outcome => outcome.response.map (.ret (i, false))
  | _ => none

def visible (n : Nat) (m : Machine) : Action → Option (Visible CallId Request Response)
  | .call i request => some (.call (i, false) request)
  | .step i answer => (step n m (.step i answer)).bind fun m' => shows i (m'.ops i)

/-- Runs with the history that the callers see. -/
def observedManager (n : Nat) : System (Machine × List (Visible CallId Request Response)) Action :=
  (fresh n).logged (visible n)

/-! ## Where a call takes effect -/

abbrev CallStatus := Status Request Response

/-- The call has taken effect, and returns what it says unless it throws. -/
def Promised (own : CallStatus) (outcome : Outcome) : Prop :=
  ∀ r, outcome.response = some r → ∃ c, own = .committed c r

def AddPc.follows (t : ThreadPtr) (assigned : Bool) : AddPc → CallStatus → Prop
  | .lookUp, own => own = .pending (.addThread t assigned)
  | .getThreadID, own | .insert _, own => own = .pending (.addThread t assigned) ∧ t ≠ nullptr
  | .notifyRegistered record, own =>
    own = .committed (.addThread t assigned) (.registered record.coreID record.id)
  | .notifyFailed _, _ => True

/-- The results so far are those of the part that was visited. -/
def Visit.Coherent (v : Visit) : Prop :=
  v.results.map Prod.fst ++ v.remaining.map (·.id) = v.snapshot.map (·.id)

def IterationPc.follows (kind : IterationKind) : IterationPc → CallStatus → Prop
  | .beginIteration, own | .takeSnapshot, own => own = .pending (.iteration kind)
  | .visiting v, own =>
    own = .committed (.iteration kind) (kind.response v.snapshot) ∧ (kind = .initializeWithResults → v.Coherent)
  | .notifyCompleted v, own =>
    own = .committed (.iteration kind) (kind.response v.snapshot) ∧ v.Coherent ∧ v.remaining = [] ∧
      kind = .initializeWithResults
  | .endIteration _ outcome, own => Promised own outcome

/-- The result of a pass that has these claims, with `rest` records to ask. -/
def Scanned (rest : Nat) (claimed : List ClaimedCleanupRecord) (r : CleanupResult) : Prop :=
  (∀ c ∈ claimed, c.removed = false) ∧
    ∃ examined, claimed.length + rest ≤ examined ∧ r = passResult examined claimed.length 0 0 0

/-- The result once the pass has deleted `k` more threads. -/
def CleanupResult.deleting (r : CleanupResult) (k : Nat) : CleanupResult :=
  { r with threadsDeleted := r.threadsDeleted + k }

def PassPc.follows : PassPc → CallStatus → Prop
  | .lockIteration, own | .deferring, own | .takeSnapshot, own => own = .pending .cleanUp
  | .notifyStarted snapshot r, own => own = .pending .cleanUp ∧ Scanned snapshot.length [] r
  | .getThreadState rest claimed r, own | .notifyClaimed _ rest claimed r, own =>
    own = .pending .cleanUp ∧ Scanned rest.length claimed r
  | .tryClaim _ rest claimed r, own => own = .pending .cleanUp ∧ Scanned (rest.length + 1) claimed r
  | .removeClaimed claimed r, own => own = .pending .cleanUp ∧ Scanned 0 claimed r
  -- The pass has promised the result it will have when it is through with its claims.
  | .unlock rest r, own | .notifyRemoved rest r, own =>
    own = .committed .cleanUp (.cleanup (r.deleting (doomed rest).length))
  | .deleteThread _ rest r, own => own = .committed .cleanUp (.cleanup (r.deleting ((doomed rest).length + 1)))
  | .notifyDeferred r, own | .notifyCompleted r, own => own = .committed .cleanUp (.cleanup r)
  | .unlockFailed _, _ | .notifyFailed _, _ => True

/-- The calls `own` and `guard` of an operation, by where it is. -/
def Pc.follows : Pc → CallStatus → CallStatus → Prop
  | .idle, own, guard => own = .idle ∧ guard = .idle
  | .addThread t assigned pc, own, guard => pc.follows t assigned own ∧ guard = .idle
  | .removeThread key, own, guard => own = .pending (.removeThread key) ∧ guard = .idle
  | .notifyRemoved _, own, guard => Promised own .removed ∧ guard = .idle
  | .iteration kind pc, own, guard => pc.follows kind own ∧ guard = .idle
  | .cleanUp .task pc, own, guard => pc.follows own ∧ guard = .idle
  | .cleanUp (.iterationGuard outcome) pc, own, guard => Promised own outcome ∧ pc.follows guard
  | .returned _, _, _ => True

/-- The directory `o` stands for the manager `m`. -/
structure Stands (m : Machine) (o : Object CallId Registry Request Response) : Prop where
  calls : ∀ i, (m.ops i).follows (o.calls (i, false)) (o.calls (i, true))
  value : o.value = m.registry

/-- The directory can follow a step of operation `i`. -/
def Followed (n : Nat) (i : OpId) (o : Object CallId Registry Request Response) (m' : Machine) : Prop :=
  ∃ o', (atomic CallId (Directory n) .empty).Shows shown o (shows i (m'.ops i)).toList o' ∧ Stands m' o'

section
variable {n : Nat} {m m' : Machine} {i : OpId} {o o' : Object CallId Registry Request Response} {answer : Answer}
  {outcome : Outcome} {c : Request} {r : Response}

theorem promised_committed (h : outcome.response = some r) : Promised (.committed c r) outcome := by
  intro r' hr'
  rw [h] at hr'
  cases hr'
  exact ⟨c, rfl⟩

theorem promised_none {own : CallStatus} (h : outcome.response = none) : Promised own outcome := by
  intro r hr
  rw [h] at hr
  cases hr

/-- Only the calls of `i` move. -/
theorem Stands.goto (h : Stands m o) {pc : Pc} (ho : m'.ops = m.ops) (hv : o'.value = m'.registry)
    (hcalls : ∀ j b, j ≠ i → o'.calls (j, b) = o.calls (j, b))
    (hpc : pc.follows (o'.calls (i, false)) (o'.calls (i, true))) : Stands (m'.goto i pc) o' := by
  refine ⟨fun j => ?_, hv⟩
  have hops : (m'.goto i pc).ops j = if j = i then pc else m.ops j := by
    simp [Machine.goto, Function.update_apply, ho]
  rw [hops]
  split
  · rename_i hj
    rw [hj]
    exact hpc
  · rename_i hj
    rw [hcalls j false hj, hcalls j true hj]
    exact h.calls j

/-- A step that the directory does not see. -/
theorem Followed.stay (h : Stands m o) {pc : Pc} (hr : m'.registry = m.registry) (ho : m'.ops = m.ops)
    (hs : shows i pc = none) (hpc : pc.follows (o.calls (i, false)) (o.calls (i, true))) :
    Followed n i o (m'.goto i pc) := by
  refine ⟨o, ?_, h.goto ho (by rw [hr, h.value]) (fun _ _ _ => rfl) hpc⟩
  rw [goto_ops_self, hs]
  exact .stay o

/-- The call shows its return. -/
theorem Followed.show_return (h : Stands m o) {pc : Pc} (hr : m'.registry = m.registry) (ho : m'.ops = m.ops)
    (hs : shows i pc = some (.ret (i, false) r)) (hcom : o.calls (i, false) = .committed c r)
    (hpc : pc.follows (.returned c r) (o.calls (i, true))) : Followed n i o (m'.goto i pc) := by
  refine ⟨o.goto (i, false) (.returned c r), ?_, h.goto ho (h.value.trans hr.symm) ?_ ?_⟩
  · rw [goto_ops_self, hs]
    exact shows_ret hcom
  · intro j b hj
    simp [Object.goto_calls, hj]
  · simpa [Object.goto_calls] using hpc

/-- The operation returns, or throws. -/
theorem Followed.returns (h : Stands m o) (hr : m'.registry = m.registry) (ho : m'.ops = m.ops)
    (hp : Promised (o.calls (i, false)) outcome) : Followed n i o (m'.goto i (.returned outcome)) := by
  cases hres : outcome.response with
  | none => exact .stay h hr ho (by simp [shows, hres]) trivial
  | some r =>
    obtain ⟨c, hc⟩ := hp r hres
    exact .show_return h hr ho (by simp [shows, hres]) hc trivial

/-- Call `b` of the operation takes effect. -/
theorem Followed.commit (h : Stands m o) {pc : Pc} {b : Bool} (ho : m'.ops = m.ops) (hs : shows i pc = none)
    (hpend : o.calls (i, b) = .pending c) (hspec : Directory n m.registry c r m'.registry)
    (hpc : pc.follows (if b then o.calls (i, false) else .committed c r)
      (if b then .committed c r else o.calls (i, true))) : Followed n i o (m'.goto i pc) := by
  rw [← h.value] at hspec
  refine ⟨({ o with value := m'.registry, order := o.order ++ [((i, b), c, r)] }).goto (i, b) (.committed c r), ?_,
    h.goto ho rfl ?_ ?_⟩
  · rw [goto_ops_self, hs]
    exact shows_commit hpend hspec
  · intro j b' hj
    simp [Object.goto_calls, hj]
  · cases b <;> simpa [Object.goto_calls] using hpc

/-- The call takes effect and returns. -/
theorem Followed.commit_return (h : Stands m o) (ho : m'.ops = m.ops) (hres : outcome.response = some r)
    (hpend : o.calls (i, false) = .pending c) (hspec : Directory n m.registry c r m'.registry) :
    Followed n i o (m'.goto i (.returned outcome)) := by
  rw [← h.value] at hspec
  refine ⟨({ o with value := m'.registry, order := o.order ++ [((i, false), c, r)] }).goto (i, false) (.returned c r),
    ?_, h.goto ho rfl ?_ trivial⟩
  · rw [goto_ops_self, shows, hres]
    exact shows_commit_ret hpend hspec
  · intro j b' hj
    simp [Object.goto_calls, hj]

/-! ## The operations -/

/-- `RemoveThread` of what is not registered. -/
theorem Registry.remove_of_not_found {r : Registry} {key : RemoveBy} (h : r.find key = none) : r.remove key = r := by
  cases key with
  | thread t => simp [Registry.remove, Registry.removeThread, List.eraseP_of_forall_not (List.find?_eq_none.1 h)]
  | id id => simp [Registry.remove, Registry.removeID, List.eraseP_of_forall_not (List.find?_eq_none.1 h)]

theorem followed_stepAddThread {t : ThreadPtr} {assigned : Bool} {pc : AddPc} (h : Stands m o)
    (hpc : m.ops i = .addThread t assigned pc) (hs : stepAddThread n m i t assigned pc answer = some m') :
    Followed n i o m' := by
  have hcalls := h.calls i
  rw [hpc] at hcalls
  obtain ⟨hown, hguard⟩ := hcalls
  cases pc with
  | lookUp =>
    simp only [stepAddThread] at hs
    split at hs
    · cases hs
      exact .stay h rfl rfl rfl ⟨trivial, hguard⟩
    · rename_i hnull
      split at hs
      · rename_i record hfind
        cases hs
        exact .commit_return h rfl rfl hown (.registered _ t assigned record hnull hfind)
      · cases hs
        refine .stay h rfl rfl rfl ⟨?_, hguard⟩
        split <;> exact ⟨hown, hnull⟩
  | getThreadID =>
    simp only [stepAddThread] at hs
    split at hs <;> cases hs
    · exact .stay h rfl rfl rfl ⟨hown, hguard⟩
    · exact .stay h rfl rfl rfl ⟨trivial, hguard⟩
  | insert requested =>
    obtain ⟨hown, hnull⟩ := hown
    have hinsertion := Registry.insertion m.registry n t assigned requested
    simp only [stepAddThread] at hs
    split at hs
    · rename_i registry record inserted hins
      split at hs
      · rename_i hinserted
        rw [hinserted] at hins
        split at hs <;> cases hs
        · exact .stay h rfl rfl rfl ⟨trivial, hguard⟩
        · refine .commit (b := false) h rfl rfl hown (.inserted _ _ t assigned requested record hnull hins) ?_
          exact ⟨rfl, hguard⟩
      · rename_i hinserted
        cases hs
        rw [hins] at hinsertion
        cases hinsertion with
        | existing _ hfind => exact .commit_return h rfl rfl hown (.registered _ t assigned record hnull hfind)
        | added => exact absurd rfl hinserted
    · cases hs
      exact .stay h rfl rfl rfl ⟨trivial, hguard⟩
  | notifyRegistered record =>
    simp only [stepAddThread] at hs
    split at hs <;> cases hs
    · exact .stay h rfl rfl rfl ⟨trivial, hguard⟩
    · refine .returns h rfl rfl ?_
      have hown : o.calls (i, false) = .committed (.addThread t assigned) (.registered record.coreID record.id) := hown
      rw [hown]
      exact promised_committed rfl
  | notifyFailed e =>
    cases hs
    exact .returns h rfl rfl (promised_none rfl)

theorem followed_stepRemoveThread {key : RemoveBy} (h : Stands m o) (hpc : m.ops i = .removeThread key) :
    Followed n i o (stepRemoveThread m i key) := by
  have hcalls := h.calls i
  rw [hpc] at hcalls
  obtain ⟨hown, hguard⟩ := hcalls
  have hnone : m.registry.find key = none → stepRemoveThread m i key = m.goto i (.returned .removed) := by
    intro hf
    cases key <;> simp only [Registry.find] at hf <;> simp only [stepRemoveThread, hf]
  have hsome : ∀ record, m.registry.find key = some record → stepRemoveThread m i key =
      { m with registry := m.registry.remove key }.goto i (.notifyRemoved record) := by
    intro record hf
    cases key <;> simp only [Registry.find] at hf <;> simp only [stepRemoveThread, hf, Registry.remove]
  have hspec : Directory n m.registry (.removeThread key) .removed (m.registry.remove key) := .removed _ key
  cases hf : m.registry.find key with
  | none =>
    rw [Registry.remove_of_not_found hf] at hspec
    rw [hnone hf]
    exact .commit_return h rfl rfl hown hspec
  | some record =>
    rw [hsome record hf]
    refine .commit (b := false) h rfl rfl hown hspec ⟨?_, hguard⟩
    exact promised_committed rfl

/-- The last `IterationGuard` makes a call of its own. -/
theorem followed_endIteration {kind : IterationKind} {v : Visit} (h : Stands m o)
    (hpc : m.ops i = .iteration kind (.endIteration v outcome)) : Followed n i o (endIteration m i outcome) := by
  have hcalls := h.calls i
  rw [hpc] at hcalls
  obtain ⟨hown, hguard⟩ := hcalls
  simp only [endIteration]
  split
  · refine ⟨o.goto (i, true) (.pending .cleanUp), ?_, h.goto rfl h.value ?_ ?_⟩
    · rw [goto_ops_self]
      exact shows_call hguard
    · intro j b hj
      simp [Object.goto_calls, hj]
    · simpa [Object.goto_calls] using ⟨hown, rfl⟩
  · exact .returns h rfl rfl hown

/-- The iteration is through with its snapshot. -/
theorem Followed.iterated (h : Stands m o) {kind : IterationKind} {v : Visit} (hr : m'.registry = m.registry)
    (ho : m'.ops = m.ops) (hguard : o.calls (i, true) = .idle)
    (hcom : o.calls (i, false) = .committed (.iteration kind) (kind.response v.snapshot))
    (hres : v.response (outcomeOf v kind) = some (kind.response v.snapshot)) :
    Followed n i o (m'.goto i (.iteration kind (.endIteration v (outcomeOf v kind)))) := by
  refine .show_return h hr ho (by simp [shows, hres]) hcom ⟨promised_none ?_, hguard⟩
  cases kind <;> rfl

theorem Visit.Coherent.next {v : Visit} {target : Target} {rest : List Target} {s : ThreadInitializationStatus}
    (h : v.Coherent) (hr : v.remaining = target :: rest) :
    Visit.Coherent { v with remaining := rest, results := v.results ++ [(target.id, s)] } := by
  simp only [Visit.Coherent, hr] at h ⊢
  simpa using h

theorem followed_stepIteration {kind : IterationKind} {pc : IterationPc} (h : Stands m o)
    (hpc : m.ops i = .iteration kind pc) (hs : stepIteration m i kind pc answer = some m') : Followed n i o m' := by
  have hcalls := h.calls i
  rw [hpc] at hcalls
  obtain ⟨hown, hguard⟩ := hcalls
  unfold stepIteration at hs
  split at hs
  · split at hs <;> cases hs
    exact .stay h rfl rfl rfl ⟨hown, hguard⟩
  · cases hs
    refine .commit (b := false) h rfl rfl hown (.visited _ kind) ⟨⟨rfl, fun _ => ?_⟩, hguard⟩
    simp [Visit.Coherent]
  · cases hs
    exact .stay h rfl rfl rfl ⟨promised_none rfl, hguard⟩
  · rename_i answer v
    obtain ⟨hcom, hcoherent⟩ := hown
    split at hs
    · rename_i hr
      cases hs
      exact .stay h rfl rfl rfl ⟨⟨hcom, hcoherent rfl, hr, rfl⟩, hguard⟩
    · rename_i kind _ _ _ hr hkind
      cases hs
      refine .iterated h rfl rfl hguard hcom ?_
      cases kind with
      | initializeWithResults => exact (hkind rfl).elim
      | forEachThread | withThread id => rfl
    · rename_i target rest s hr
      cases hs
      exact .stay h rfl rfl rfl ⟨⟨hcom, fun _ => (hcoherent rfl).next hr⟩, hguard⟩
    · rename_i target rest hr
      cases hs
      exact .stay h rfl rfl rfl ⟨⟨hcom, fun _ => (hcoherent rfl).next hr⟩, hguard⟩
    · cases hs
      exact .stay h rfl rfl rfl ⟨⟨hcom, by rintro ⟨⟩⟩, hguard⟩
    · cases hs
      exact .stay h rfl rfl rfl ⟨⟨hcom, by rintro ⟨⟩⟩, hguard⟩
    · cases hs
      exact .stay h rfl rfl rfl ⟨promised_none rfl, hguard⟩
    · cases hs
      exact .stay h rfl rfl rfl ⟨promised_none rfl, hguard⟩
    · cases hs
  · rename_i v
    obtain ⟨hcom, hcoherent, hr, rfl⟩ := hown
    cases hs
    have hids : v.results.map Prod.fst = v.snapshot.map (·.id) := by simpa [Visit.Coherent, hr] using hcoherent
    refine .iterated h rfl rfl hguard hcom ?_
    simp [outcomeOf, Visit.response, IterationKind.response, hids]
  · cases hs
    exact .stay h rfl rfl rfl ⟨promised_none rfl, hguard⟩
  · split at hs <;> cases hs
    exact followed_endIteration h hpc
  · cases hs

/-- The call a pass belongs to: that of the task, or that of the guard. -/
def Caller.guards : Caller → Bool
  | .task => false
  | .iterationGuard _ => true

/-- The other call of the operation. -/
def Caller.Aside (own guard : CallStatus) : Caller → Prop
  | .task => guard = .idle
  | .iterationGuard outcome => Promised own outcome

theorem follows_cleanUp {caller : Caller} {pc : PassPc} {own guard : CallStatus} :
    (Pc.cleanUp caller pc).follows own guard ↔
      pc.follows (if caller.guards then guard else own) ∧ caller.Aside own guard := by
  cases caller with
  | task => exact Iff.rfl
  | iterationGuard outcome => exact and_comm

theorem shows_cleanUp {caller : Caller} {pc : PassPc} (h : pc ≠ .lockIteration) :
    shows i (.cleanUp caller pc) = none := by
  cases caller with
  | task => rfl
  | iterationGuard outcome => cases pc <;> first | rfl | exact absurd rfl h

theorem Followed.pass (h : Stands m o) {caller : Caller} {pc : PassPc} (hr : m'.registry = m.registry)
    (ho : m'.ops = m.ops) (hl : pc ≠ .lockIteration) (haside : caller.Aside (o.calls (i, false)) (o.calls (i, true)))
    (hpc : pc.follows (o.calls (i, caller.guards))) : Followed n i o (m'.goto i (.cleanUp caller pc)) := by
  refine .stay h hr ho (shows_cleanUp hl) (follows_cleanUp.2 ⟨?_, haside⟩)
  cases caller <;> exact hpc

theorem Followed.pass_commit (h : Stands m o) {caller : Caller} {pc : PassPc} (ho : m'.ops = m.ops)
    (hl : pc ≠ .lockIteration) (haside : caller.Aside (o.calls (i, false)) (o.calls (i, true)))
    (hpend : o.calls (i, caller.guards) = .pending .cleanUp) (hspec : Directory n m.registry .cleanUp r m'.registry)
    (hpc : pc.follows (.committed .cleanUp r)) : Followed n i o (m'.goto i (.cleanUp caller pc)) := by
  refine .commit h ho (shows_cleanUp hl) hpend hspec ?_
  cases caller with
  | task => exact ⟨hpc, haside⟩
  | iterationGuard outcome => exact ⟨haside, hpc⟩

theorem Followed.pass_returns (h : Stands m o) {caller : Caller} {r : CleanupResult} (hr : m'.registry = m.registry)
    (ho : m'.ops = m.ops) (haside : caller.Aside (o.calls (i, false)) (o.calls (i, true)))
    (hcom : o.calls (i, caller.guards) = .committed .cleanUp (.cleanup r)) :
    Followed n i o (m'.goto i (.returned (caller.onReturn r))) := by
  refine .returns h hr ho ?_
  cases caller with
  | task =>
    have hcom : o.calls (i, false) = .committed .cleanUp (.cleanup r) := hcom
    rw [hcom]
    exact promised_committed rfl
  | iterationGuard outcome => exact haside

theorem Followed.pass_throws (h : Stands m o) {caller : Caller} (hr : m'.registry = m.registry)
    (ho : m'.ops = m.ops) : Followed n i o (m'.goto i (.returned caller.onThrow)) := by
  refine .returns h hr ho (promised_none ?_)
  cases caller <;> rfl

theorem Scanned.skip {rest : Nat} {claimed : List ClaimedCleanupRecord} {r : CleanupResult}
    (h : Scanned (rest + 1) claimed r) : Scanned rest claimed r := by
  obtain ⟨hclaims, examined, hle, hr⟩ := h
  exact ⟨hclaims, examined, by omega, hr⟩

theorem Scanned.claim {rest : Nat} {claimed : List ClaimedCleanupRecord} {r : CleanupResult} {id : UInt8}
    {t : ThreadPtr} (h : Scanned (rest + 1) claimed r) :
    Scanned rest (claimed ++ [⟨id, t, false⟩]) { r with threadsClaimed := r.threadsClaimed + 1 } := by
  obtain ⟨hclaims, examined, hle, rfl⟩ := h
  refine ⟨?_, examined, ?_, ?_⟩
  · intro c hc
    rcases List.mem_append.1 hc with hc | hc
    · exact hclaims c hc
    · rw [List.mem_singleton.1 hc]
  · simp only [List.length_append, List.length_singleton]
    omega
  · simp [passResult]

theorem followed_stepCleanUp {caller : Caller} {pc : PassPc} (h : Stands m o) (hf : Fenced m)
    (hpc : m.ops i = .cleanUp caller pc) (hs : stepCleanUp m i caller pc answer = some m') : Followed n i o m' := by
  have hcalls := h.calls i
  rw [hpc, follows_cleanUp] at hcalls
  obtain ⟨hown, haside⟩ := hcalls
  have hown : pc.follows (o.calls (i, caller.guards)) := by cases caller <;> exact hown
  unfold stepCleanUp at hs
  split at hs
  · -- lockIteration
    split at hs
    · dsimp only at hs
      split at hs <;> cases hs <;> exact .pass h rfl rfl (by rintro ⟨⟩) haside hown
    · cases hs
  · -- a deferred pass
    cases hs
    exact .pass_commit h rfl (by rintro ⟨⟩) haside hown (.deferred _ _ (hf.deferring i caller hpc)) rfl
  · cases hs
    exact .pass_returns h rfl rfl haside hown
  · cases hs
    exact .pass_throws h rfl rfl
  · -- takeSnapshot
    cases hs
    refine .pass h rfl rfl (by rintro ⟨⟩) haside ⟨hown, by simp, m.registry.threads.length, ?_, rfl⟩
    simp
  · cases hs
    exact .pass h rfl rfl (by rintro ⟨⟩) haside trivial
  · cases hs
    exact .pass h rfl rfl (by rintro ⟨⟩) haside hown
  · cases hs
    exact .pass h rfl rfl (by rintro ⟨⟩) haside trivial
  · cases hs
    exact .pass h rfl rfl (by rintro ⟨⟩) haside hown
  · -- getThreadState
    obtain ⟨hpend, hscan⟩ := hown
    split at hs
    · cases hs
      exact .pass h rfl rfl (by rintro ⟨⟩) haside ⟨hpend, hscan.skip⟩
    · cases answer with
      | returnsBool terminated =>
        cases terminated with
        | true =>
          cases hs
          exact .pass h rfl rfl (by rintro ⟨⟩) haside ⟨hpend, hscan⟩
        | false =>
          cases hs
          exact .pass h rfl rfl (by rintro ⟨⟩) haside ⟨hpend, hscan.skip⟩
      | throws =>
        cases hs
        exact .pass h rfl rfl (by rintro ⟨⟩) haside trivial
      | returns | threadID _ | status _ => cases hs
  · -- tryClaim
    obtain ⟨hpend, hscan⟩ := hown
    split at hs <;> cases hs
    · exact .pass h rfl rfl (by rintro ⟨⟩) haside ⟨hpend, hscan.claim⟩
    · exact .pass h rfl rfl (by rintro ⟨⟩) haside ⟨hpend, hscan.skip⟩
  · cases hs
    exact .pass h rfl rfl (by rintro ⟨⟩) haside trivial
  · cases hs
    exact .pass h rfl rfl (by rintro ⟨⟩) haside hown
  · cases hs
    exact .pass h rfl rfl (by rintro ⟨⟩) haside trivial
  · -- removeClaimed
    rename_i claimed r _
    obtain ⟨hpend, hclaims, examined, hle, rfl⟩ := hown
    cases hs
    refine .pass_commit h rfl (by rintro ⟨⟩) haside hpend (.cleaned _ claimed examined _ hle hclaims rfl) ?_
    simp [PassPc.follows, CleanupResult.deleting, passResult]
  · cases hs
    exact .pass h rfl rfl (by rintro ⟨⟩) haside hown
  · cases hs
    exact .pass h rfl rfl (by rintro ⟨⟩) haside hown
  · -- notifyRemoved
    rename_i c rest r _
    split at hs
    · rename_i hremoved
      have hdoomed : (doomed (c :: rest)).length = (doomed rest).length + 1 := by simp [doomed, hremoved]
      split at hs <;> cases hs
      · refine .pass h rfl rfl (by rintro ⟨⟩) haside ?_
        simpa only [PassPc.follows, hdoomed] using hown
      · exact .pass h rfl rfl (by rintro ⟨⟩) haside trivial
    · rename_i hremoved
      have hdoomed : doomed (c :: rest) = doomed rest := by simp [doomed, hremoved]
      cases hs
      refine .pass h rfl rfl (by rintro ⟨⟩) haside ?_
      simpa only [PassPc.follows, hdoomed] using hown
  · -- deleteThread
    rename_i c rest r _
    have hdeleted : CleanupResult.deleting { r with threadsDeleted := r.threadsDeleted + 1 } (doomed rest).length =
        r.deleting ((doomed rest).length + 1) := by
      simp only [CleanupResult.deleting, Nat.add_assoc, Nat.add_comm 1]
    cases hs
    refine .pass h rfl rfl (by rintro ⟨⟩) haside ?_
    show o.calls (i, caller.guards) = .committed .cleanUp (.cleanup (CleanupResult.deleting _ _))
    rw [hdeleted]
    exact hown
  · cases hs
    exact .pass_returns h rfl rfl haside hown
  · cases hs
    exact .pass h rfl rfl (by rintro ⟨⟩) haside trivial
  · cases hs
    exact .pass h rfl rfl (by rintro ⟨⟩) haside trivial
  · cases hs
    exact .pass_throws h rfl rfl
  · cases hs
    exact .pass_throws h rfl rfl
  · cases hs

/-- Every step of the manager. -/
theorem Stands.step {a : Action} (h : Stands m o) (hf : Fenced m) (hs : Manager.step n m a = some m') :
    ∃ o', (atomic CallId (Directory n) .empty).Shows shown o (visible n m a).toList o' ∧ Stands m' o' := by
  cases a with
  | call i request =>
    simp only [Manager.step] at hs
    split at hs <;> cases hs
    rename_i hidle
    have hcalls := h.calls i
    rw [hidle] at hcalls
    obtain ⟨hown, hguard⟩ := hcalls
    refine ⟨o.goto (i, false) (.pending request), shows_call hown, h.goto rfl h.value ?_ ?_⟩
    · intro j b hj
      simp [Object.goto_calls, hj]
    · cases request <;> simpa [Object.goto_calls] using ⟨rfl, hguard⟩
  | step i answer =>
    have hvisible : visible n m (.step i answer) = shows i (m'.ops i) := by simp [visible, hs]
    rw [hvisible]
    show Followed n i o m'
    simp only [Manager.step, stepOp] at hs
    split at hs
    · cases hs
    · cases hs
    · exact followed_stepAddThread h ‹_› hs
    · split at hs <;> cases hs
      exact followed_stepRemoveThread h ‹_›
    · rename_i record hpc
      have hcalls := h.calls i
      rw [hpc] at hcalls
      split at hs <;> cases hs
      · exact .returns h rfl rfl hcalls.1
      · exact .returns h rfl rfl (promised_none rfl)
    · exact followed_stepIteration h ‹_› hs
    · exact followed_stepCleanUp h hf ‹_› hs

theorem directory_simulation (n : Nat) :
    System.Simulation (fresh n) (visible n) (fun m _ => Fenced m) (atomic CallId (Directory n) .empty) shown
      Stands := by
  refine ⟨?_, ?_⟩
  · rintro m rfl
    exact ⟨_, rfl, fun _ => ⟨rfl, rfl⟩, rfl⟩
  · intro m o a m' h hf hs
    exact h.step hf hs

/-- No history of the manager shows that its calls overlap. -/
theorem manager_linearizable (n : Nat) (x : Machine × List (Visible CallId Request Response))
    (h : (observedManager n).Reachable x) : Linearizable (Directory n) .empty x.2 := by
  have hfenced : (observedManager n).ReachableWhen (fun x _ => Fenced x.1) x :=
    h.strengthen fun _ _ _ hr _ _ => fenced_reachable (System.reachable_of_logged hr)
  obtain ⟨o, ho, -⟩ := (directory_simulation n).reachable hfenced
  exact atomic_linearizable ho

end

/-- Two tasks register one thread. The second inserts it, and the first finds it
at its write section. -/
def registerTwice : List Action :=
  [.call 0 (.addThread 10 true), .call 1 (.addThread 10 true), .step 0 .returns, .step 1 .returns, .step 1 .returns,
    .step 1 .returns, .step 0 .returns]

theorem registerTwice_linearizable : ∃ h : List (Visible CallId Request Response),
    Linearizable (Directory 2) .empty h ∧ h = [.call (0, false) (.addThread 10 true),
      .call (1, false) (.addThread 10 true), .ret (1, false) (.registered 0 1), .ret (0, false) (.registered 0 1)] := by
  have hrun : ((observedManager 2).replay (.start .empty, []) registerTwice).map (fun x => x.2) =
      some [.call (0, false) (.addThread 10 true), .call (1, false) (.addThread 10 true),
        .ret (1, false) (.registered 0 1), .ret (0, false) (.registered 0 1)] := by
    decide +kernel
  obtain ⟨x, hs, hl⟩ := Option.map_eq_some_iff.1 hrun
  have hinit : (observedManager 2).init (.start .empty, []) := ⟨rfl, rfl⟩
  have hr : (observedManager 2).Reachable x := System.reachable_of_replay hinit hs
  exact ⟨x.2, manager_linearizable 2 x hr, hl⟩

end ESPressio.Manager
