import ESPressioThreads.Manager.Registration
/-!
# Transactional registration

One call of `AddThread` by itself, and the constructor of a `Thread` around it,
over every point at which they can throw. `addThread` sums up the steps of the
call; a call that runs alone on the manager is one of its results.

The record is in the registry before the observers are notified. Everything
else that throws comes before that. `NotifyObservers` catches what an observer
throws: the notification throws only when the channel `ExecuteNotification` does.
-/

namespace ESPressio.Manager

open Transition

variable {n : Nat} {r : Registry} {t : ThreadPtr} {assigned : Bool}

/-- What the foreign code of one call does: the ID a custom thread hands back,
unless `GetThreadID` throws, and whether the storage of the record and the
notification channel throw. -/
structure AddFaults where
  threadID : Option UInt8
  storage : Bool
  notification : Bool
  deriving DecidableEq, Repr

/-- `AddThread`, from its lookup to the return or the exception. -/
def addThread (n : Nat) (r : Registry) (t : ThreadPtr) (assigned : Bool) (f : AddFaults) :
    Registry × Except RegistrationError ThreadRecord :=
  if t = nullptr then (r, .error .invalidRegistration)
  else
    match r.findThread t with
    | some record => (r, .ok record)
    | none =>
      match if assigned then some 0 else f.threadID with
      | none => (r, .error .failed)
      | some requested =>
        match r.insert n t assigned requested with
        | .error e => (r, .error e)
        | .ok (_, record, false) => (r, .ok record)
        | .ok (registry, record, true) =>
          if f.storage then (r, .error .failed)
          else (registry, if f.notification then .error .failed else .ok record)

/-! ## The constructor -/

/-- What else a constructor calls: both signals, and the observable. -/
structure ConstructorFaults where
  taskExited : Bool
  taskStartGate : Bool
  lifecycleObservable : Bool
  add : AddFaults
  deriving DecidableEq, Repr

/-- `_ensureRegistered`, with `_registered` after it. -/
def ensureRegistered (n : Nat) (r : Registry) (t : ThreadPtr) (registered : Bool) (f : AddFaults) :
    Registry × Bool × Except RegistrationError Unit :=
  if registered then (r, true, .ok ())
  else
    match addThread n r t true f with
    | (registry, .ok _) => (registry, true, .ok ())
    | (registry, .error e) => (registry, false, .error e)

/-- `_removeRegistration`. -/
def removeRegistration (r : Registry) (t : ThreadPtr) (registered : Bool) : Registry :=
  if registered then r.removeThread t else r

/-- `Thread::Thread`; `immediate` is the registration policy. -/
def construct (n : Nat) (r : Registry) (t : ThreadPtr) (immediate : Bool) (f : ConstructorFaults) :
    Registry × Except RegistrationError Unit :=
  if f.taskExited || f.taskStartGate || f.lifecycleObservable then (removeRegistration r t false, .error .failed)
  else if immediate then
    match ensureRegistered n r t false f.add with
    | (registry, _, .ok ()) => (registry, .ok ())
    | (registry, registered, .error e) => (removeRegistration registry t registered, .error e)
  else (r, .ok ())

/-! ## A call on the manager -/

def Outcome.ofResult : Except RegistrationError ThreadRecord → Outcome
  | .ok record => .core record.coreID record.id
  | .error _ => .thrown

/-- How far a call that runs alone from the registry `r` has come. -/
inductive Progress (n : Nat) (r : Registry) (t : ThreadPtr) (assigned : Bool) : Pc → Registry → Prop
  | lookUp : Progress n r t assigned (.addThread t assigned .lookUp) r
  | getThreadID : t ≠ nullptr → r.findThread t = none → assigned = false →
      Progress n r t assigned (.addThread t assigned .getThreadID) r
  | insert (requested : UInt8) : t ≠ nullptr → r.findThread t = none → (assigned = true → requested = 0) →
      Progress n r t assigned (.addThread t assigned (.insert requested)) r
  | inserted (requested : UInt8) (registry : Registry) (record : ThreadRecord) : t ≠ nullptr →
      r.findThread t = none → (assigned = true → requested = 0) →
      r.insert n t assigned requested = .ok (registry, record, true) →
      Progress n r t assigned (.addThread t assigned (.notifyRegistered record)) registry
  | failed (f : AddFaults) (registry : Registry) (e e' : RegistrationError) :
      addThread n r t assigned f = (registry, .error e) →
      Progress n r t assigned (.addThread t assigned (.notifyFailed e')) registry
  | returned (f : AddFaults) (registry : Registry) (result : Except RegistrationError ThreadRecord) :
      addThread n r t assigned f = (registry, result) →
      Progress n r t assigned (.returned (.ofResult result)) registry

/-- The faults of a call that asks for `requested`. -/
theorem addThread_insert {requested : UInt8} {storage notification : Bool} (ht : t ≠ nullptr)
    (hf : r.findThread t = none) (hreq : assigned = true → requested = 0) :
    addThread n r t assigned ⟨some requested, storage, notification⟩ =
      match r.insert n t assigned requested with
      | .error e => (r, .error e)
      | .ok (_, record, false) => (r, .ok record)
      | .ok (registry, record, true) =>
        if storage then (r, .error .failed)
        else (registry, if notification then .error .failed else .ok record) := by
  have hid : (if assigned then some 0 else some requested) = some requested := by
    split
    · rw [hreq ‹_›]
    · rfl
  simp only [addThread, if_neg ht, hf, hid]

theorem Progress.step {m m' : Machine} {i : OpId} {answer : Answer}
    (h : Progress n r t assigned (m.ops i) m.registry) (hs : step n m (.step i answer) = some m') :
    Progress n r t assigned (m'.ops i) m'.registry := by
  generalize hpc : m.ops i = pc at h
  generalize hr : m.registry = registry at h
  -- Only the insertion changes the registry.
  have hgoto : ∀ (m₁ : Machine) (pc : Pc), m₁.registry = m.registry → Progress n r t assigned pc registry →
      Progress n r t assigned ((m₁.goto i pc).ops i) (m₁.goto i pc).registry := fun m₁ pc hm hp => by
    rw [Machine.goto_ops]
    show Progress n r t assigned pc m₁.registry
    rwa [hm, hr]
  cases h with
  | lookUp =>
    simp only [Manager.step, stepOp, hpc, stepAddThread] at hs
    split at hs
    · rename_i hnull
      cases hs
      refine hgoto m _ rfl (.failed ⟨none, false, false⟩ _ .invalidRegistration _ ?_)
      simp [addThread, hnull]
    · rename_i hnull
      split at hs
      · rename_i record hf
        cases hs
        refine hgoto m _ rfl (.returned ⟨none, false, false⟩ _ (.ok record) ?_)
        rw [hr] at hf
        simp [addThread, hnull, hf]
      · rename_i hf
        cases hs
        rw [hr] at hf
        refine hgoto m _ rfl ?_
        cases assigned
        · exact .getThreadID hnull hf rfl
        · exact .insert 0 hnull hf fun _ => rfl
  | getThreadID ht hf ha =>
    simp only [Manager.step, stepOp, hpc, stepAddThread] at hs
    split at hs <;> cases hs
    · exact hgoto m _ rfl (.insert _ ht hf fun h => absurd h (by rw [ha]; rintro ⟨⟩))
    · refine hgoto m _ rfl (.failed ⟨none, false, false⟩ _ .failed _ ?_)
      simp [addThread, ht, hf, ha]
  | insert requested ht hf hreq =>
    simp only [Manager.step, stepOp, hpc, stepAddThread] at hs
    split at hs
    · rename_i registry' record inserted hins
      rw [hr] at hins
      split at hs
      · rename_i hinserted
        rw [hinserted] at hins
        split at hs <;> cases hs
        · refine hgoto m _ rfl (.failed ⟨some requested, true, false⟩ _ .failed _ ?_)
          rw [addThread_insert ht hf hreq, hins]
          rfl
        · rw [Machine.goto_ops]
          exact .inserted requested registry' record ht hf hreq hins
      · rename_i hinserted
        have hfalse : inserted = false := Bool.eq_false_iff.2 hinserted
        rw [hfalse] at hins
        cases hs
        refine hgoto m _ rfl (.returned ⟨some requested, false, false⟩ _ (.ok record) ?_)
        rw [addThread_insert ht hf hreq, hins]
    · rename_i e hins
      rw [hr] at hins
      cases hs
      refine hgoto m _ rfl (.failed ⟨some requested, false, false⟩ _ e _ ?_)
      rw [addThread_insert ht hf hreq, hins]
  | inserted requested registry' record ht hf hreq hins =>
    simp only [Manager.step, stepOp, hpc, stepAddThread] at hs
    split at hs <;> cases hs
    · refine hgoto _ _ rfl (.failed ⟨some requested, false, true⟩ _ .failed _ ?_)
      rw [addThread_insert ht hf hreq, hins]
      rfl
    · refine hgoto _ _ rfl (.returned ⟨some requested, false, false⟩ _ (.ok record) ?_)
      rw [addThread_insert ht hf hreq, hins]
      rfl
  | failed f registry' e e' hadd =>
    simp only [Manager.step, stepOp, hpc, stepAddThread] at hs
    cases hs
    exact hgoto _ _ rfl (.returned f _ (.error e) hadd)
  | returned f registry' result hadd =>
    simp [Manager.step, stepOp, hpc] at hs

/-- The steps of operation `i`. -/
def Own (i : OpId) (_ : Machine) (a : Action) : Prop := ∃ answer, a = .step i answer

/-- A call that runs alone is one of the results of `addThread`. -/
theorem addThread_alone {m m₁ m₂ : Machine} {i : OpId} {outcome : Outcome}
    (hc : step n m (.call i (.addThread t assigned)) = some m₁) (hl : (fresh n).Leads (Own i) m₁ m₂)
    (ho : m₂.ops i = .returned outcome) :
    ∃ f, m₂.registry = (addThread n m.registry t assigned f).1 ∧
      outcome = .ofResult (addThread n m.registry t assigned f).2 := by
  have hstart : Progress n m.registry t assigned (m₁.ops i) m₁.registry := by
    obtain ⟨-, rfl⟩ := step_call hc
    rw [Machine.goto_ops]
    exact .lookUp
  have hend := hl.invariant (I := fun m' => Progress n m.registry t assigned (m'.ops i) m'.registry) hstart
    fun m' a m'' hp hown hs => by obtain ⟨answer, rfl⟩ := hown; exact hp.step hs
  rw [ho] at hend
  generalize m₂.registry = registry at hend ⊢
  cases hend with
  | returned f _ result hadd => exact ⟨f, by rw [hadd], by rw [hadd]⟩

/-! ## Where it throws -/

/-- The call comes to its notification, whose channel throws: the pointer is
new, it has an ID, and the record is stored. -/
structure NotificationThrows (r : Registry) (t : ThreadPtr) (assigned : Bool) (f : AddFaults) : Prop where
  notNull : t ≠ nullptr
  fresh : t ∉ r.pointers
  hasID : ∃ requested id, (if assigned then some 0 else f.threadID) = some requested ∧
    r.recordID assigned requested = .ok id
  stored : f.storage = false
  throws : f.notification = true

/-- A call that throws leaves the registry alone, or throws from its
notification and leaves the new record. -/
theorem addThread_error {f : AddFaults} {e : RegistrationError} (h : (addThread n r t assigned f).2 = .error e) :
    (¬ NotificationThrows r t assigned f ∧ (addThread n r t assigned f).1 = r) ∨
      (NotificationThrows r t assigned f ∧ ∃ id, (addThread n r t assigned f).1 =
        ⟨r.threads ++ [⟨id, t, r.nextCoreID % n⟩], (r.nextCoreID % n + 1) % n⟩) := by
  unfold addThread at h ⊢
  split
  · rename_i hnull
    exact .inl ⟨fun hthrows => hthrows.notNull hnull, rfl⟩
  · rename_i hnull
    rw [if_neg hnull] at h
    split
    · rename_i record hf
      rw [hf] at h
      cases h
    · rename_i hf
      rw [hf] at h
      have hfresh := Registry.findThread_eq_none.1 hf
      split
      · rename_i hid
        refine .inl ⟨fun hthrows => ?_, rfl⟩
        obtain ⟨requested, id, hreq, -⟩ := hthrows.hasID
        rw [hid] at hreq
        cases hreq
      · rename_i requested hid
        simp only [hid] at h
        have hcase := Registry.insertion r n t assigned requested
        generalize r.insert n t assigned requested = x at h hcase ⊢
        cases hcase with
        | existing record hf' => rw [hf] at hf'; cases hf'
        | refused e' _ he =>
          refine .inl ⟨fun hthrows => ?_, rfl⟩
          obtain ⟨requested', id, hreq, hok⟩ := hthrows.hasID
          rw [hid] at hreq
          cases hreq
          rw [he] at hok
          cases hok
        | added id _ hok =>
          dsimp only at h ⊢
          -- The record is ready: its storage may fail, and after that the notification.
          split
          · rename_i hstorage
            exact .inl ⟨fun hthrows => absurd hthrows.stored (by rw [hstorage]; nofun), rfl⟩
          · rename_i hstorage
            rw [if_neg hstorage] at h
            have hthrows : f.notification = true := by
              by_contra hno
              simp [hno] at h
            exact .inr ⟨⟨hnull, hfresh, ⟨requested, id, hid, hok⟩, Bool.eq_false_iff.2 hstorage, hthrows⟩, id, rfl⟩

/-- A throwing constructor has not got to `_registered`. -/
theorem construct_error {immediate : Bool} {f : ConstructorFaults} {e : RegistrationError}
    (h : (construct n r t immediate f).2 = .error e) :
    ((f.taskExited || f.taskStartGate || f.lifecycleObservable) = true ∧ (construct n r t immediate f).1 = r) ∨
      ((f.taskExited || f.taskStartGate || f.lifecycleObservable) = false ∧ immediate = true ∧
        (addThread n r t true f.add).2 = .error e ∧
        (construct n r t immediate f).1 = (addThread n r t true f.add).1) := by
  unfold construct at h ⊢
  split
  · rename_i hf
    exact .inl ⟨hf, rfl⟩
  · rename_i hf
    rw [if_neg hf] at h
    split at h
    · rename_i himm
      right
      refine ⟨Bool.eq_false_iff.2 hf, himm, ?_⟩
      simp only [himm, if_true, ensureRegistered, Bool.false_eq_true, if_false] at h ⊢
      generalize addThread n r t true f.add = x at h ⊢
      obtain ⟨registry, result⟩ := x
      cases result with
      | ok record => cases h
      | error e' => cases h; exact ⟨rfl, rfl⟩
    · cases h

/-- The call whose notification throws. -/
theorem NotificationThrows.addThread {f : AddFaults} (h : NotificationThrows r t assigned f) :
    ∃ id, addThread n r t assigned f =
      (⟨r.threads ++ [⟨id, t, r.nextCoreID % n⟩], (r.nextCoreID % n + 1) % n⟩, .error .failed) := by
  obtain ⟨requested, id, hid, hok⟩ := h.hasID
  have hf := Registry.findThread_eq_none.2 h.fresh
  refine ⟨id, ?_⟩
  simp [Manager.addThread, h.notNull, hf, hid, Registry.insert, hok, h.stored, h.throws]

/-- The constructor whose notification throws. -/
theorem NotificationThrows.construct {f : ConstructorFaults} (h : NotificationThrows r t true f.add)
    (hf : (f.taskExited || f.taskStartGate || f.lifecycleObservable) = false) :
    ∃ id, construct n r t true f =
      (⟨r.threads ++ [⟨id, t, r.nextCoreID % n⟩], (r.nextCoreID % n + 1) % n⟩, .error .failed) := by
  obtain ⟨id, hadd⟩ := h.addThread (n := n)
  refine ⟨id, ?_⟩
  simp [Manager.construct, hf, ensureRegistered, hadd, removeRegistration]

/-! ## The contract -/

/-- A call of `AddThread` that throws leaves the registry and the rotation as
they were, and a constructor that throws leaves no record of its thread, unless
the notification of the new record throws. -/
theorem registration_transactional (n : Nat) (r : Registry) (t : ThreadPtr) :
    (∀ assigned f, ((∃ e, (addThread n r t assigned f).2 = .error e) → (addThread n r t assigned f).1 = r) ↔
      ¬ NotificationThrows r t assigned f) ∧
    ∀ immediate f, t ∉ r.pointers →
      (((∃ e, (construct n r t immediate f).2 = .error e) → t ∉ (construct n r t immediate f).1.pointers) ↔
        ¬ (immediate = true ∧ (f.taskExited || f.taskStartGate || f.lifecycleObservable) = false ∧
          NotificationThrows r t true f.add)) := by
  refine ⟨fun assigned f => ⟨fun h hthrows => ?_, ?_⟩, fun immediate f hnew => ⟨?_, ?_⟩⟩
  · obtain ⟨id, hadd⟩ := hthrows.addThread (n := n)
    have hsame := congrArg Registry.threads (h ⟨.failed, by rw [hadd]⟩)
    rw [hadd] at hsame
    simp at hsame
  · rintro hno ⟨e, he⟩
    rcases addThread_error he with ⟨-, hsame⟩ | ⟨hthrows, -⟩
    · exact hsame
    · exact absurd hthrows hno
  · rintro h ⟨rfl, hf, hthrows⟩
    obtain ⟨id, hconstruct⟩ := hthrows.construct (n := n) hf
    refine h ⟨.failed, by rw [hconstruct]⟩ ?_
    rw [hconstruct]
    simp [Registry.pointers]
  · rintro hno ⟨e, he⟩
    rcases construct_error he with ⟨-, hsame⟩ | ⟨hf, himm, hadd, hregistry⟩
    · rwa [hsame]
    · rw [hregistry]
      rcases addThread_error hadd with ⟨-, hsame⟩ | ⟨hthrows, -⟩
      · rwa [hsame]
      · exact absurd ⟨himm, hf, hthrows⟩ hno

/-- A constructor that has no storage for its record leaves none. -/
theorem unstored_leaves_nothing :
    (construct 2 .empty 10 true ⟨false, false, false, ⟨none, true, true⟩⟩).2 = .error .failed ∧
    10 ∉ (construct 2 .empty 10 true ⟨false, false, false, ⟨none, true, true⟩⟩).1.pointers :=
  ⟨by decide, ((registration_transactional 2 .empty 10).2 true ⟨false, false, false, ⟨none, true, true⟩⟩ (by decide)).2
    (fun h => absurd h.2.2.stored (by decide)) ⟨.failed, by decide⟩⟩

/-- The notification channel throws on the first registration: the record
remains, and with it the pointer to the object whose constructor threw. -/
theorem record_remains :
    (¬ ∀ (n : Nat) (r : Registry) (t : ThreadPtr) (assigned : Bool) (f : AddFaults),
      (∃ e, (addThread n r t assigned f).2 = .error e) → (addThread n r t assigned f).1 = r) ∧
    ¬ ∀ (n : Nat) (r : Registry) (t : ThreadPtr) (immediate : Bool) (f : ConstructorFaults), t ∉ r.pointers →
      (∃ e, (construct n r t immediate f).2 = .error e) → t ∉ (construct n r t immediate f).1.pointers := by
  constructor
  · intro h
    have hsame := h 1 .empty 10 true ⟨none, false, true⟩ ⟨.failed, by decide⟩
    exact absurd hsame (by decide)
  · intro h
    have hgone := h 1 .empty 10 true ⟨false, false, false, ⟨none, false, true⟩⟩ (by decide) ⟨.failed, by decide⟩
    exact hgone (by decide)

end ESPressio.Manager
