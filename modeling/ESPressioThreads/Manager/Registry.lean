import Mathlib.Data.List.Nodup
/-!
# The registry of the thread manager

What the locked sections of `ThreadManager` do to its records: the write
sections of `AddThread` and both `RemoveThread`, and the removal of claimed
records by a cleanup pass. A thread is a pointer, and `nullptr` is pointer 0.
-/

namespace ESPressio.Manager

/-- An `IThread*`. -/
abbrev ThreadPtr := Nat

def nullptr : ThreadPtr := 0

structure ThreadRecord where
  id : UInt8
  thread : ThreadPtr
  coreID : Nat
  deriving DecidableEq, Repr

/-- `_threads` and `_nextCoreID`, which the registry lock protects. -/
structure Registry where
  threads : List ThreadRecord
  nextCoreID : Nat
  deriving DecidableEq, Repr

inductive RegistrationError
  | invalidRegistration
  | duplicateID (id : UInt8)
  | limitExceeded
  | failed
  deriving DecidableEq, Repr

/-- A record a cleanup pass has claimed. -/
structure ClaimedCleanupRecord where
  id : UInt8
  thread : ThreadPtr
  removed : Bool
  deriving DecidableEq, Repr

namespace Registry

def findThread (r : Registry) (t : ThreadPtr) : Option ThreadRecord :=
  r.threads.find? (·.thread = t)

def findID (r : Registry) (id : UInt8) : Option ThreadRecord :=
  r.threads.find? (·.id = id)

def idInUse (r : Registry) (id : UInt8) : Bool :=
  r.threads.any (·.id = id)

/-- The least free ID of `1, …, 255`, else 0 when that is free. -/
def leastFreeID (r : Registry) : Option UInt8 :=
  (((List.range' 1 255).map UInt8.ofNat).find? fun id => !r.idInUse id).or
    (if r.idInUse 0 then none else some 0)

/-- The ID of a new record: chosen when the caller passed `assignedThreadID`,
else the one the thread asked for. -/
def recordID (r : Registry) (assigned : Bool) (requested : UInt8) : Except RegistrationError UInt8 :=
  if assigned then
    match r.leastFreeID with
    | some id => .ok id
    | none => .error .limitExceeded
  else if r.idInUse requested then .error (.duplicateID requested)
  else .ok requested

/-- The write section of `AddThread`: the record of the thread, whether it is
new, and the registry after. -/
def insert (r : Registry) (coreCount : Nat) (t : ThreadPtr) (assigned : Bool) (requested : UInt8) :
    Except RegistrationError (Registry × ThreadRecord × Bool) :=
  match r.findThread t with
  | some existing => .ok (r, existing, false)
  | none =>
    match r.recordID assigned requested with
    | .error e => .error e
    | .ok id =>
      let useCore := r.nextCoreID % coreCount
      let record := ⟨id, t, useCore⟩
      .ok (⟨r.threads ++ [record], (useCore + 1) % coreCount⟩, record, true)

/-- The write section of `RemoveThread(IThread*)`. -/
def removeThread (r : Registry) (t : ThreadPtr) : Registry :=
  { r with threads := r.threads.eraseP (·.thread = t) }

/-- The write section of `RemoveThread(uint8_t)`. -/
def removeID (r : Registry) (id : UInt8) : Registry :=
  { r with threads := r.threads.eraseP (·.id = id) }

/-- A registered record with the ID and the pointer of a claimed one. -/
def matching (c : ClaimedCleanupRecord) (record : ThreadRecord) : Bool :=
  record.id = c.id && record.thread = c.thread

/-- One round of the removal loop of `CleanUpWithResult`. -/
def removeOne (r : Registry) (c : ClaimedCleanupRecord) : Registry × ClaimedCleanupRecord :=
  if r.threads.any (matching c) then
    ({ r with threads := r.threads.eraseP (matching c) }, { c with removed := true })
  else (r, c)

/-- The write section of `CleanUpWithResult`. -/
def removeClaimed (r : Registry) : List ClaimedCleanupRecord → Registry × List ClaimedCleanupRecord
  | [] => (r, [])
  | c :: cs =>
    let one := r.removeOne c
    let rest := removeClaimed one.1 cs
    (rest.1, one.2 :: rest.2)

/-! ## Pointers -/

/-- The registered pointers, in order. -/
def pointers (r : Registry) : List ThreadPtr := r.threads.map (·.thread)

variable {r : Registry} {t u : ThreadPtr} {id : UInt8}

theorem mem_pointers_of_find {record : ThreadRecord} (h : r.findID id = some record) :
    record.thread ∈ r.pointers :=
  List.mem_map.2 ⟨record, List.mem_of_find?_eq_some h, rfl⟩

theorem pointers_eraseP_sublist (p : ThreadRecord → Bool) :
    ((r.threads.eraseP p).map (·.thread)).Sublist r.pointers :=
  (List.eraseP_sublist).map _

/-- `AddThread` registers no pointer but its own. -/
theorem insert_pointers {coreCount : Nat} {assigned : Bool} {requested : UInt8} {r' : Registry}
    {record : ThreadRecord} {fresh : Bool}
    (h : r.insert coreCount t assigned requested = .ok (r', record, fresh)) :
    r'.pointers = r.pointers ∨ r'.pointers = r.pointers ++ [t] := by
  unfold insert at h
  split at h
  · cases h; exact .inl rfl
  · split at h
    · cases h
    · cases h
      simp [pointers]

/-- Registered pointers are pairwise distinct and not null. -/
structure WellFormed (r : Registry) : Prop where
  pointers_nodup : r.pointers.Nodup
  not_null : nullptr ∉ r.pointers

theorem WellFormed.sublist {r' : Registry} (h : r.WellFormed) (hs : r'.pointers.Sublist r.pointers) :
    r'.WellFormed :=
  ⟨hs.nodup h.pointers_nodup, fun hn => h.not_null (hs.subset hn)⟩

theorem WellFormed.insert {coreCount : Nat} {assigned : Bool} {requested : UInt8} {r' : Registry}
    {record : ThreadRecord} {fresh : Bool} (hr : r.WellFormed) (ht : t ≠ nullptr)
    (h : r.insert coreCount t assigned requested = .ok (r', record, fresh)) : r'.WellFormed := by
  unfold Registry.insert at h
  split at h
  · cases h; exact hr
  · rename_i hf
    split at h
    · cases h
    · cases h
      have hnot : t ∉ r.pointers := by
        intro hm
        obtain ⟨record, hmem, rfl⟩ := List.mem_map.1 hm
        have := List.find?_eq_none.1 hf record hmem
        simp at this
      refine ⟨?_, ?_⟩
      · rw [pointers, List.map_append, List.nodup_append]
        refine ⟨hr.pointers_nodup, by simp, ?_⟩
        intro a ha b hb
        have : b = t := by simpa using hb
        rintro rfl
        exact hnot (this ▸ ha)
      · rw [pointers, List.map_append, List.mem_append]
        rintro (hm | hm)
        · exact hr.not_null hm
        · have : nullptr = t := by simpa using hm
          exact ht this.symm

/-! ## The removal of a cleanup pass -/

theorem removeOne_pointers_sublist (c : ClaimedCleanupRecord) :
    (r.removeOne c).1.pointers.Sublist r.pointers := by
  unfold removeOne
  split
  · exact pointers_eraseP_sublist _
  · exact List.Sublist.refl _

theorem removeClaimed_pointers_sublist (cs : List ClaimedCleanupRecord) :
    (r.removeClaimed cs).1.pointers.Sublist r.pointers := by
  induction cs generalizing r with
  | nil => exact List.Sublist.refl _
  | cons c cs ih => exact ih.trans (removeOne_pointers_sublist c)

/-- What one round marks as removed is no longer registered. -/
theorem removeOne_removed {c : ClaimedCleanupRecord} (hr : r.WellFormed) (hc : c.removed = false)
    (h : (r.removeOne c).2.removed = true) : c.thread ∉ (r.removeOne c).1.pointers := by
  unfold removeOne at h ⊢
  split at h
  · rename_i hany
    obtain ⟨record, hmem, hm⟩ := List.any_eq_true.1 hany
    obtain ⟨a, l₁, l₂, -, ha, hl, he⟩ := List.exists_of_eraseP hmem hm
    have hthread : a.thread = c.thread := by simp [matching] at ha; exact ha.2
    have hnd := hr.pointers_nodup
    simp only [hany, if_true]
    rw [pointers, hl, List.map_append, List.map_cons, List.nodup_middle] at hnd
    rw [pointers, he, ← hthread, List.map_append]
    exact (List.nodup_cons.1 hnd).1
  · simp [hc] at h

theorem removeOne_thread (c : ClaimedCleanupRecord) : (r.removeOne c).2.thread = c.thread := by
  unfold removeOne
  split <;> rfl

/-- The pass removes the pointers it marks, and marks only pointers it claimed. -/
theorem removeClaimed_removed {cs : List ClaimedCleanupRecord} {c' : ClaimedCleanupRecord}
    (hr : r.WellFormed) (hcs : ∀ c ∈ cs, c.removed = false) (hc' : c' ∈ (r.removeClaimed cs).2)
    (h : c'.removed = true) :
    c'.thread ∉ (r.removeClaimed cs).1.pointers ∧ ∃ c ∈ cs, c.thread = c'.thread := by
  induction cs generalizing r with
  | nil => cases hc'
  | cons c cs ih =>
    have hr' := hr.sublist (removeOne_pointers_sublist (r := r) c)
    have hcs' : ∀ d ∈ cs, d.removed = false := fun d hd => hcs d (List.mem_cons_of_mem _ hd)
    rcases List.mem_cons.1 hc' with rfl | hc'
    · have hgone := removeOne_removed hr (hcs c List.mem_cons_self) h
      refine ⟨?_, c, List.mem_cons_self, (removeOne_thread c).symm⟩
      rw [removeOne_thread]
      exact fun hm => hgone ((removeClaimed_pointers_sublist cs).subset hm)
    · obtain ⟨hgone, d, hd, hdt⟩ := ih hr' hcs' hc'
      exact ⟨hgone, d, List.mem_cons_of_mem _ hd, hdt⟩

end Registry
end ESPressio.Manager
