import ESPressioThreads.Manager.Claims
import ESPressioThreads.Manager.Rotation
/-!
# A cleanup pass that throws

One call of `CleanUpWithResult` on its own, over a registry of `Thread` and
custom objects. A `Thread` answers the pass from its fields and does not throw;
a custom object, a notification and an allocation may do anything. The log
holds the calls that threw, in order: the pass fails at the first one.
-/

namespace ESPressio.Manager

open Transition ESPressio.Thread

/-- The fields of a `Thread` that a pass reads and writes. -/
structure ThreadObject where
  threadState : ThreadState
  freeOnTerminate : Bool
  cleanupClaim : CleanupClaim
  deriving DecidableEq, Repr

/-- `Thread::TryClaimAutomaticCleanup`. -/
def ThreadObject.tryClaimAutomaticCleanup (o : ThreadObject) : Bool × ThreadObject :=
  if !o.freeOnTerminate || o.threadState ≠ .terminated then (false, o)
  else if o.cleanupClaim = .available then (true, { o with cleanupClaim := .automatic })
  else (false, o)

/-- The registered objects; `none` is a custom `IThread`. -/
abbrev Objects := ThreadPtr → Option ThreadObject

/-- What the objects can answer the pass. -/
def Objects.answers (objects : Objects) : PassPc → Answer → Bool
  | .getThreadState (record :: _) _ _, answer =>
    match objects record.thread with
    | some o => answer = .returnsBool (o.threadState = .terminated)
    | none => true
  | .tryClaim record _ _ _, answer =>
    match objects record.thread with
    | some o => answer = .returnsBool o.tryClaimAutomaticCleanup.1
    | none => true
  | _, _ => true

/-- The objects after a call of the pass. -/
def Objects.after (objects : Objects) : PassPc → Objects
  | .tryClaim record _ _ _ =>
    Function.update objects record.thread ((objects record.thread).map fun o => o.tryClaimAutomaticCleanup.2)
  | _ => objects

/-- One step of the pass, which is operation 0. -/
def passStep (x : Machine × Objects) (answer : Answer) : Option (Machine × Objects) :=
  match x.1.ops 0 with
  | .cleanUp caller pc =>
    if x.2.answers pc answer then
      (stepCleanUp x.1 0 caller pc answer).map fun m => (m, x.2.after pc)
    else none
  | _ => none

/-- The call that throws. -/
def thrownBy (x : Machine × Objects) (answer : Answer) : Option PassPc :=
  match x.1.ops 0 with
  | .cleanUp _ pc => if answer = .throws then some pc else none
  | _ => none

/-- The call of `CleanUpWithResult`. -/
def passStart (registry : Registry) (objects : Objects) (activeIterations : Nat) : Machine × Objects :=
  ({ Machine.start registry with activeIterations := activeIterations }.goto 0 (.cleanUp .task .lockIteration), objects)

/-- A pass over `registry`, with the calls that threw. -/
def failingPass (registry : Registry) (objects : Objects) (activeIterations : Nat) :
    System ((Machine × Objects) × List PassPc) Answer :=
  System.logged { init := fun x => x = passStart registry objects activeIterations, step := passStep } thrownBy

/-! ## What a failed pass must not lose -/

/-- A pass that comes to the thread claims it. -/
def Claimable (objects : Objects) (t : ThreadPtr) : Prop :=
  ∃ o, objects t = some o ∧ o.tryClaimAutomaticCleanup.1 = true

section
variable (r₀ : Registry) (o₀ : Objects)

/-- Every `Thread` that was eligible is deleted, or still registered and
claimable; the claims that were made belong to deleted threads. -/
structure NothingLost (registry : Registry) (deleted : List ThreadPtr) (objects : Objects) : Prop where
  eligible : ∀ t ∈ r₀.pointers, Claimable o₀ t → t ∈ deleted ∨ (t ∈ registry.pointers ∧ Claimable objects t)
  claimed : ∀ t, objects t ≠ o₀ t → t ∈ deleted

/-- The calls at which the pass may throw without losing a thread: no eligible
`Thread` stands before the record it comes to, nor, once claimed threads are
out of the registry, from the one whose removal it announces. -/
def PassPc.Safe : PassPc → Prop
  | .getThreadState (record :: _) _ _ | .tryClaim record _ _ _ =>
    ∀ before after, r₀.pointers = before ++ record.thread :: after → ∀ t ∈ before, ¬ Claimable o₀ t
  | .notifyClaimed record _ _ _ =>
    ∀ before after, r₀.pointers = before ++ record.thread :: after →
      ∀ t ∈ before ++ [record.thread], ¬ Claimable o₀ t
  | .notifyRemoved (c :: _) _ =>
    ∀ before after, r₀.pointers = before ++ c.thread :: after → ∀ t ∈ c.thread :: after, ¬ Claimable o₀ t
  | _ => True

end

/-! ## Order -/

/-- In a list without duplicates, what stands before and after an element of a
sublist stands before and after it in the list. -/
theorem sublist_sides {A B D R : List ThreadPtr} {p : ThreadPtr} (hn : (D ++ p :: R).Nodup)
    (hs : (A ++ p :: B).Sublist (D ++ p :: R)) : A.Sublist D ∧ B.Sublist R := by
  induction D generalizing A with
  | nil =>
    have hp : p ∉ R := (List.nodup_cons.1 hn).1
    cases A with
    | nil => exact ⟨List.Sublist.refl _, List.cons_sublist_cons.1 hs⟩
    | cons a A =>
      have htail : (A ++ p :: B).Sublist R := by
        rcases List.sublist_cons_iff.1 hs with hs | ⟨l, hl, hs⟩
        · exact (List.sublist_cons_self _ _).trans hs
        · cases hl; exact hs
      exact absurd (htail.subset (by simp)) hp
  | cons d D ih =>
    obtain ⟨hd, hn⟩ := List.nodup_cons.1 hn
    rcases List.sublist_cons_iff.1 hs with hs | ⟨l, hl, hs⟩
    · exact ⟨(ih hn hs).1.cons d, (ih hn hs).2⟩
    · cases A with
      | nil =>
        cases hl
        exact absurd (by simp) hd
      | cons a A =>
        cases hl
        exact ⟨(ih hn hs).1.cons_cons d, (ih hn hs).2⟩

/-- The place of an element in such a list. -/
theorem eq_before {D D' R R' : List ThreadPtr} {p : ThreadPtr} (hn : (D ++ p :: R).Nodup)
    (h : D ++ p :: R = D' ++ p :: R') : D' = D ∧ R' = R := by
  have hle : (D' ++ p :: R').Sublist (D ++ p :: R) := by rw [h]
  have hge : (D ++ p :: R).Sublist (D' ++ p :: R') := by rw [h]
  have hsub := sublist_sides hn hle
  have hsup := sublist_sides (hle.nodup hn) hge
  exact ⟨hsub.1.antisymm hsup.1, hsub.2.antisymm hsup.2⟩

/-! ## The removal -/

def ClaimedCleanupRecord.key (c : ClaimedCleanupRecord) : UInt8 × ThreadPtr := (c.id, c.thread)

def ThreadRecord.key (record : ThreadRecord) : UInt8 × ThreadPtr := (record.id, record.thread)

/-- Claims of distinct registered records are all removed. -/
theorem Registry.removeClaimed_all {r : Registry} {cs : List ClaimedCleanupRecord}
    (hn : (cs.map fun c => c.thread).Nodup) (hcs : ∀ c ∈ cs, ∃ record ∈ r.threads, record.key = c.key) :
    ∀ c ∈ (r.removeClaimed cs).2, c.removed = true := by
  induction cs generalizing r with
  | nil => intro c hc; cases hc
  | cons c cs ih =>
    obtain ⟨hc, hn⟩ := List.nodup_cons.1 hn
    intro d hd
    rcases List.mem_cons.1 hd with rfl | hd
    · obtain ⟨record, hm, hkey⟩ := hcs c List.mem_cons_self
      have hid : record.id = c.id := congrArg Prod.fst hkey
      have hthread : record.thread = c.thread := congrArg Prod.snd hkey
      have hany : r.threads.any (matching c) = true :=
        List.any_eq_true.2 ⟨record, hm, by simp [matching, hid, hthread]⟩
      simp [removeOne, hany]
    · refine ih hn (fun d hd => ?_) d hd
      obtain ⟨record, hm, hkey⟩ := hcs d (List.mem_cons_of_mem _ hd)
      rcases mem_removeOne (c := c) hm with hm | ⟨-, ht⟩
      · exact ⟨record, hm, hkey⟩
      · have hthread : record.thread = d.thread := congrArg Prod.snd hkey
        exact absurd (List.mem_map.2 ⟨d, hd, hthread.symm.trans ht⟩) hc

/-! ## The phases of a pass -/

section
variable (r₀ : Registry) (o₀ : Objects)

/-- The records `done` are behind the pass, which still holds the registry lock
off: their eligible threads are claimed, and nothing is removed. -/
structure Claimed (registry : Registry) (deleted : List ThreadPtr) (objects : Objects) (done : List ThreadRecord)
    (claimed : List ClaimedCleanupRecord) : Prop where
  registry : registry = r₀
  deleted : deleted = []
  fresh : ∀ c ∈ claimed, c.removed = false
  sublist : (claimed.map ClaimedCleanupRecord.key).Sublist (done.map ThreadRecord.key)
  complete : ∀ record ∈ done, Claimable o₀ record.thread → ∃ c ∈ claimed, c.thread = record.thread
  marked : ∀ record ∈ done, ¬ Claimable objects record.thread
  same : ∀ t, objects t ≠ o₀ t → Claimable o₀ t ∧ ∃ record ∈ done, record.thread = t

/-- The claimed threads are out of the registry; `deleted` are gone and `rest`
are next. -/
structure Swept (registry : Registry) (deleted : List ThreadPtr) (objects : Objects) (rest : List ThreadPtr) :
    Prop where
  sublist : (deleted ++ rest).Sublist r₀.pointers
  registered : ∀ t ∈ r₀.pointers, t ∉ deleted ++ rest → t ∈ registry.pointers
  removed : ∀ t ∈ rest, t ∉ registry.pointers
  complete : ∀ t ∈ r₀.pointers, Claimable o₀ t → t ∈ deleted ++ rest
  same : ∀ t, objects t ≠ o₀ t → Claimable o₀ t ∧ t ∈ deleted ++ rest

/-- The pass threw at its first failing call, and loses nothing exactly when
that call is safe. -/
def Failed (registry : Registry) (deleted : List ThreadPtr) (objects : Objects) (log : List PassPc) : Prop :=
  ∃ pc, log.head? = some pc ∧ (NothingLost r₀ o₀ registry deleted objects ↔ pc.Safe r₀ o₀)

/-- What holds at each point of the pass. -/
def PassHolds (registry : Registry) (deleted : List ThreadPtr) (objects : Objects) (log : List PassPc) : Pc → Prop
  | .cleanUp .task .lockIteration | .cleanUp .task .deferring | .cleanUp .task (.notifyDeferred _)
  | .cleanUp .task .takeSnapshot =>
    Claimed r₀ o₀ registry deleted objects [] [] ∧ log = []
  | .cleanUp .task (.notifyStarted snapshot _) =>
    snapshot = r₀.threads ∧ Claimed r₀ o₀ registry deleted objects [] [] ∧ log = []
  | .cleanUp .task (.getThreadState rest claimed _) =>
    ∃ done, r₀.threads = done ++ rest ∧ Claimed r₀ o₀ registry deleted objects done claimed ∧ log = []
  | .cleanUp .task (.tryClaim record rest claimed _) =>
    ∃ done, r₀.threads = done ++ record :: rest ∧ Claimed r₀ o₀ registry deleted objects done claimed ∧ log = []
  | .cleanUp .task (.notifyClaimed record rest claimed _) =>
    ∃ done, r₀.threads = done ++ record :: rest ∧
      Claimed r₀ o₀ registry deleted objects (done ++ [record]) claimed ∧ log = []
  | .cleanUp .task (.removeClaimed claimed _) => Claimed r₀ o₀ registry deleted objects r₀.threads claimed ∧ log = []
  | .cleanUp .task (.unlock rest _) | .cleanUp .task (.notifyRemoved rest _) =>
    (∀ c ∈ rest, c.removed = true) ∧ Swept r₀ o₀ registry deleted objects (rest.map fun c => c.thread) ∧ log = []
  | .cleanUp .task (.deleteThread c rest _) =>
    (∀ c ∈ rest, c.removed = true) ∧
      Swept r₀ o₀ registry deleted objects (c.thread :: rest.map fun c => c.thread) ∧ log = []
  | .cleanUp .task (.notifyCompleted _) => Swept r₀ o₀ registry deleted objects [] ∧ log = []
  | .cleanUp .task (.unlockFailed _) | .cleanUp .task (.notifyFailed _) | .returned .thrown =>
    Failed r₀ o₀ registry deleted objects log
  | .cleanUp (.iterationGuard _) _ => False
  | _ => True

end

variable {r₀ registry : Registry} {o₀ objects : Objects} {deleted : List ThreadPtr} {done rest : List ThreadRecord}
  {claimed : List ClaimedCleanupRecord} {record : ThreadRecord} {t : ThreadPtr}

/-! ### Claims -/

/-- A claim cannot be made twice. -/
theorem ThreadObject.claim_once (o : ThreadObject) :
    o.tryClaimAutomaticCleanup.2.tryClaimAutomaticCleanup.1 = false := by
  unfold tryClaimAutomaticCleanup
  split
  · simp only [*]
  · split
    · simp
    · simp only [*]

theorem ThreadObject.unclaimed (o : ThreadObject) (h : o.tryClaimAutomaticCleanup.1 = false) :
    o.tryClaimAutomaticCleanup.2 = o := by
  unfold tryClaimAutomaticCleanup at h ⊢
  split
  · rfl
  · rename_i hno
    rw [if_neg hno] at h
    split
    · rename_i ha
      rw [if_pos ha] at h
      cases h
    · rfl

theorem not_claimable_of_same (h : ¬ Claimable o₀ t) (hs : objects t ≠ o₀ t → Claimable o₀ t) :
    ¬ Claimable objects t := by
  intro hc
  by_cases he : objects t = o₀ t
  · obtain ⟨o, ho, hclaim⟩ := hc
    exact h ⟨o, he ▸ ho, hclaim⟩
  · exact h (hs he)

/-- Before the pass has come to a thread it has not touched it. -/
theorem Claimed.untouched (h : Claimed r₀ o₀ registry deleted objects done claimed)
    (hnew : ∀ r ∈ done, r.thread ≠ t) : objects t = o₀ t := by
  by_contra hne
  obtain ⟨-, r, hr, ht⟩ := h.same t hne
  exact hnew r hr ht

/-- The pass goes past a record that it does not claim. -/
theorem Claimed.skip (h : Claimed r₀ o₀ registry deleted objects done claimed)
    (hno : ¬ Claimable o₀ record.thread) : Claimed r₀ o₀ registry deleted objects (done ++ [record]) claimed where
  registry := h.registry
  deleted := h.deleted
  fresh := h.fresh
  sublist := by
    rw [List.map_append]
    exact h.sublist.trans (List.sublist_append_left _ _)
  complete r hr hc := by
    rcases List.mem_append.1 hr with hr | hr
    · exact h.complete r hr hc
    · rw [List.mem_singleton.1 hr] at hc
      exact absurd hc hno
  marked r hr := by
    rcases List.mem_append.1 hr with hr | hr
    · exact h.marked r hr
    · rw [List.mem_singleton.1 hr]
      exact not_claimable_of_same hno fun hne => (h.same _ hne).1
  same t hne := by
    obtain ⟨hc, r, hr, ht⟩ := h.same t hne
    exact ⟨hc, r, List.mem_append_left _ hr, ht⟩

/-- `TryClaimAutomaticCleanup` of the next record. -/
theorem Claimed.claim {r : CleanupResult} {won : Bool} (h : Claimed r₀ o₀ registry deleted objects done claimed)
    (hnew : ∀ r ∈ done, r.thread ≠ record.thread)
    (ha : objects.answers (.tryClaim record rest claimed r) (.returnsBool won) = true) :
    Claimed r₀ o₀ registry deleted (objects.after (.tryClaim record rest claimed r)) (done ++ [record])
      (if won then claimed ++ [⟨record.id, record.thread, false⟩] else claimed) := by
  -- No record before this one has its pointer, so the object is as at the start.
  have hold := h.untouched hnew
  have hother : ∀ t, t ≠ record.thread → objects.after (.tryClaim record rest claimed r) t = objects t :=
    fun t ht => Function.update_of_ne ht _ _
  have hself : objects.after (.tryClaim record rest claimed r) record.thread =
      (objects record.thread).map fun o => o.tryClaimAutomaticCleanup.2 := Function.update_self ..
  have hwon : ∀ o, objects record.thread = some o → won = o.tryClaimAutomaticCleanup.1 := by
    intro o ho
    simpa [Objects.answers, ho] using ha
  refine ⟨h.registry, h.deleted, ?_, ?_, fun s hs hc => ?_, fun s hs => ?_, fun t hne => ?_⟩
  · cases won with
    | true =>
      intro c hc
      rcases List.mem_append.1 hc with hc | hc
      · exact h.fresh c hc
      · rw [List.mem_singleton.1 hc]
    | false => exact h.fresh
  · rw [List.map_append]
    cases won with
    | true =>
      rw [if_pos rfl, List.map_append]
      exact h.sublist.append (List.Sublist.refl _)
    | false => exact h.sublist.trans (List.sublist_append_left _ _)
  · rcases List.mem_append.1 hs with hs | hs
    · obtain ⟨c, hm, ht⟩ := h.complete s hs hc
      refine ⟨c, ?_, ht⟩
      split
      · exact List.mem_append_left _ hm
      · exact hm
    · rw [List.mem_singleton.1 hs] at hc ⊢
      obtain ⟨o, ho, hclaim⟩ := hc
      rw [hwon o (hold.trans ho), hclaim, if_pos rfl]
      exact ⟨⟨record.id, record.thread, false⟩, by simp, rfl⟩
  · rcases List.mem_append.1 hs with hs | hs
    · have hkeep := h.marked s hs
      unfold Claimable at hkeep ⊢
      rwa [hother _ (hnew s hs)]
    · rw [List.mem_singleton.1 hs]
      rintro ⟨o, ho, hclaim⟩
      rw [hself, Option.map_eq_some_iff] at ho
      obtain ⟨o', -, rfl⟩ := ho
      rw [o'.claim_once] at hclaim
      cases hclaim
  · by_cases ht : t = record.thread
    · subst ht
      refine ⟨?_, record, by simp, rfl⟩
      rw [hself, ← hold] at hne
      cases ho : objects record.thread with
      | none => exact absurd (by rw [ho]; rfl) hne
      | some o =>
        refine ⟨o, hold.symm.trans ho, ?_⟩
        by_contra hlost
        refine hne ?_
        rw [ho, Option.map_some, o.unclaimed (Bool.eq_false_iff.2 hlost)]
    · rw [hother t ht] at hne
      obtain ⟨hc, s, hs, hst⟩ := h.same t hne
      exact ⟨hc, s, List.mem_append_left _ hs, hst⟩

/-! ### Throwing -/

/-- A pass that throws while it claims loses the threads it has claimed. -/
theorem Claimed.nothingLost_iff (h : Claimed r₀ o₀ registry deleted objects done claimed)
    (hdone : ∀ r ∈ done, r.thread ∈ r₀.pointers) :
    NothingLost r₀ o₀ registry deleted objects ↔ ∀ r ∈ done, ¬ Claimable o₀ r.thread := by
  refine ⟨fun hn r hr hc => ?_, fun hno => ⟨fun t ht hc => .inr ⟨h.registry ▸ ht, ?_⟩, fun t hne => ?_⟩⟩
  · rcases hn.eligible r.thread (hdone r hr) hc with hd | ⟨-, hstill⟩
    · rw [h.deleted] at hd
      cases hd
    · exact h.marked r hr hstill
  · have hsame : objects t = o₀ t := by
      by_contra hne
      obtain ⟨hc, r, hr, rfl⟩ := h.same t hne
      exact hno r hr hc
    unfold Claimable at hc ⊢
    rwa [hsame]
  · obtain ⟨hc, r, hr, rfl⟩ := h.same t hne
    exact absurd hc (hno r hr)

/-- The places that the condition speaks of are those of the pass. -/
theorem sides_iff {P : List ThreadPtr → List ThreadPtr → Prop} (hr : r₀.WellFormed)
    {before after : List ThreadPtr} (hsplit : r₀.pointers = before ++ t :: after) :
    (∀ before after, r₀.pointers = before ++ t :: after → P before after) ↔ P before after := by
  constructor
  · intro h
    exact h before after hsplit
  · intro h before' after' he
    have hn := hr.pointers_nodup
    rw [hsplit] at hn
    obtain ⟨rfl, rfl⟩ := eq_before hn (hsplit.symm.trans he)
    exact h

theorem pointers_split (hsplit : r₀.threads = done ++ record :: rest) :
    r₀.pointers = (done.map fun r => r.thread) ++ record.thread :: rest.map fun r => r.thread := by
  simp [Registry.pointers, hsplit]

/-- The pass has not met the next record before. -/
theorem new_of_split (hr : r₀.WellFormed) (hsplit : r₀.threads = done ++ record :: rest) :
    ∀ r ∈ done, r.thread ≠ record.thread := by
  intro r hd he
  have hn := hr.pointers_nodup
  rw [pointers_split hsplit, List.nodup_middle] at hn
  exact (List.nodup_cons.1 hn).1 (List.mem_append_left _ (List.mem_map.2 ⟨r, hd, he⟩))

/-- The pass throws at the next record, before it claims it. -/
theorem Claimed.throws (hr : r₀.WellFormed) (h : Claimed r₀ o₀ registry deleted objects done claimed)
    (hsplit : r₀.threads = done ++ record :: rest) : NothingLost r₀ o₀ registry deleted objects ↔
      ∀ before after, r₀.pointers = before ++ record.thread :: after → ∀ t ∈ before, ¬ Claimable o₀ t := by
  rw [sides_iff hr (pointers_split hsplit), h.nothingLost_iff fun r hd => ?_]
  · simp
  · exact List.mem_map.2 ⟨r, by simp [hsplit, hd], rfl⟩

/-- The pass throws at a record that it has claimed. -/
theorem Claimed.throws_claimed (hr : r₀.WellFormed)
    (h : Claimed r₀ o₀ registry deleted objects (done ++ [record]) claimed)
    (hsplit : r₀.threads = done ++ record :: rest) : NothingLost r₀ o₀ registry deleted objects ↔
      ∀ before after, r₀.pointers = before ++ record.thread :: after →
        ∀ t ∈ before ++ [record.thread], ¬ Claimable o₀ t := by
  rw [sides_iff hr (pointers_split hsplit), h.nothingLost_iff fun r hd => ?_]
  · simp only [List.mem_append, List.mem_singleton, List.mem_map]
    constructor
    · rintro hno t (⟨r, hd, rfl⟩ | rfl)
      · exact hno r (.inl hd)
      · exact hno record (.inr rfl)
    · rintro hno r (hd | rfl)
      · exact hno r.thread (.inl ⟨r, hd, rfl⟩)
      · exact hno r.thread (.inr rfl)
  · refine List.mem_map.2 ⟨r, ?_, rfl⟩
    rw [hsplit]
    rcases List.mem_append.1 hd with hd | hd
    · exact List.mem_append_left _ hd
    · exact List.mem_append_right _ (by rw [List.mem_singleton.1 hd]; exact List.mem_cons_self)

/-- The pass throws before it has claimed anything. -/
theorem Claimed.throws_early (h : Claimed r₀ o₀ registry deleted objects [] claimed) :
    NothingLost r₀ o₀ registry deleted objects :=
  (h.nothingLost_iff nofun).2 nofun

/-- The pass throws while it announces the removal of `t`: what it has not
deleted yet is lost. -/
theorem Swept.throws {after : List ThreadPtr} (hr : r₀.WellFormed)
    (h : Swept r₀ o₀ registry deleted objects (t :: after)) : NothingLost r₀ o₀ registry deleted objects ↔
      ∀ before after, r₀.pointers = before ++ t :: after → ∀ u ∈ t :: after, ¬ Claimable o₀ u := by
  have ht : t ∈ r₀.pointers := h.sublist.subset (by simp)
  obtain ⟨before, behind, hsplit⟩ := List.append_of_mem ht
  have hn := hr.pointers_nodup
  rw [hsplit] at hn
  have hsides := sublist_sides hn (hsplit ▸ h.sublist)
  have hrest : ∀ u ∈ t :: after, u ∈ t :: behind := fun u hu => by
    rcases List.mem_cons.1 hu with rfl | hu
    · exact List.mem_cons_self
    · exact List.mem_cons_of_mem _ (hsides.2.subset hu)
  rw [sides_iff hr hsplit]
  constructor
  · intro hnothing u hu hc
    have hreg : u ∈ r₀.pointers := by rw [hsplit]; exact List.mem_append_right _ hu
    have hnew : u ∉ deleted := fun hd =>
      (List.nodup_append.1 hn).2.2 u (hsides.1.subset hd) u hu rfl
    rcases hnothing.eligible u hreg hc with hd | ⟨hstill, -⟩
    · exact hnew hd
    · rcases List.mem_append.1 (h.complete u hreg hc) with hd | hrest
      · exact hnew hd
      · exact h.removed u hrest hstill
  · intro hno
    refine ⟨fun u hu hc => .inl ?_, fun u hne => ?_⟩
    · rcases List.mem_append.1 (h.complete u hu hc) with hd | hu
      · exact hd
      · exact absurd hc (hno u (hrest u hu))
    · obtain ⟨hc, hu⟩ := h.same u hne
      rcases List.mem_append.1 hu with hd | hu
      · exact hd
      · exact absurd hc (hno u (hrest u hu))

/-- Every claimed thread is deleted. -/
theorem Swept.nothingLost (h : Swept r₀ o₀ registry deleted objects []) :
    NothingLost r₀ o₀ registry deleted objects where
  eligible t ht hc := .inl (by simpa using h.complete t ht hc)
  claimed t hne := by simpa using (h.same t hne).2

/-- The removal of the claimed records. -/
theorem Claimed.sweep (hr : r₀.WellFormed) (h : Claimed r₀ o₀ registry deleted objects r₀.threads claimed) :
    (∀ c ∈ (registry.removeClaimed claimed).2, c.removed = true) ∧
      Swept r₀ o₀ (registry.removeClaimed claimed).1 deleted objects
        ((registry.removeClaimed claimed).2.map fun c => c.thread) := by
  -- Nothing was removed while the pass claimed, so all claimed records are still there.
  obtain rfl := h.registry
  obtain rfl := h.deleted
  have hsub : (claimed.map fun c => c.thread).Sublist registry.pointers := by
    have := h.sublist.map Prod.snd
    simpa [Function.comp_def, ClaimedCleanupRecord.key, ThreadRecord.key, Registry.pointers] using this
  have hkeys : ∀ c ∈ claimed, ∃ record ∈ registry.threads, record.key = c.key := fun c hc =>
    List.mem_map.1 (h.sublist.subset (List.mem_map.2 ⟨c, hc, rfl⟩))
  have hall := Registry.removeClaimed_all (hsub.nodup hr.pointers_nodup) hkeys
  refine ⟨hall, ?_⟩
  rw [Registry.removeClaimed_threads]
  refine ⟨by simpa using hsub, fun t ht hno => ?_, fun t ht => ?_, fun t ht hc => ?_, fun t hne => ?_⟩
  · obtain ⟨record, hm, rfl⟩ := List.mem_map.1 ht
    have hor : record ∈ (registry.removeClaimed claimed).1.threads ∨ _ := Registry.mem_removeClaimed hm
    rcases hor with hm | hd
    · exact List.mem_map.2 ⟨record, hm, rfl⟩
    · obtain ⟨c, hc, ht⟩ := List.mem_map.1 hd
      have hmem : c.thread ∈ (registry.removeClaimed claimed).2.map fun c => c.thread :=
        List.mem_map.2 ⟨c, (List.mem_filter.1 hc).1, rfl⟩
      rw [Registry.removeClaimed_threads, ht] at hmem
      exact absurd (by simpa using hmem) hno
  · rw [← Registry.removeClaimed_threads (r := registry)] at ht
    obtain ⟨c, hc, rfl⟩ := List.mem_map.1 ht
    exact (Registry.removeClaimed_removed hr h.fresh hc (hall c hc)).1
  · obtain ⟨record, hm, rfl⟩ := List.mem_map.1 ht
    obtain ⟨c, hmc, he⟩ := h.complete record hm hc
    exact List.mem_map.2 ⟨c, hmc, he⟩
  · obtain ⟨hc, record, hm, rfl⟩ := h.same t hne
    obtain ⟨c, hmc, he⟩ := h.complete record hm hc
    exact ⟨hc, List.mem_map.2 ⟨c, hmc, he⟩⟩

/-- The deletion of the next thread. -/
theorem Swept.delete {after : List ThreadPtr} (h : Swept r₀ o₀ registry deleted objects (t :: after)) :
    Swept r₀ o₀ registry (deleted ++ [t]) objects after := by
  have hlist : deleted ++ [t] ++ after = deleted ++ t :: after := List.append_cons .. |>.symm
  refine ⟨?_, fun u hu hno => ?_, fun u hu => h.removed u (List.mem_cons_of_mem _ hu), ?_, ?_⟩
  · rw [hlist]; exact h.sublist
  · rw [hlist] at hno; exact h.registered u hu hno
  · rw [hlist]; exact h.complete
  · rw [hlist]; exact h.same

/-! ## Runs -/

section Step
variable {m m' : Machine} {log : List PassPc} {pc : PassPc} {answer : Answer}

theorem PassHolds.goto {pc : Pc} (h : PassHolds r₀ o₀ m.registry m.deleted objects log pc) :
    PassHolds r₀ o₀ (m.goto 0 pc).registry (m.goto 0 pc).deleted objects log ((m.goto 0 pc).ops 0) := by
  rw [Machine.goto_ops]
  exact h

/-- The first failing call. -/
theorem Failed.first (h : NothingLost r₀ o₀ registry deleted objects ↔ pc.Safe r₀ o₀) :
    Failed r₀ o₀ registry deleted objects ([] ++ [pc]) := ⟨pc, rfl, h⟩

/-- A later failure does not change which call was the first. -/
theorem Failed.append (h : Failed r₀ o₀ registry deleted objects log) (l : List PassPc) :
    Failed r₀ o₀ registry deleted objects (log ++ l) := by
  obtain ⟨pc, hfirst, hiff⟩ := h
  exact ⟨pc, by rw [List.head?_append, hfirst]; rfl, hiff⟩

/-- One step of the pass. -/
theorem PassHolds.stepped (hr : r₀.WellFormed) (ha : objects.answers pc answer = true)
    (h : PassHolds r₀ o₀ m.registry m.deleted objects log (.cleanUp .task pc))
    (hs : stepCleanUp m 0 .task pc answer = some m') :
    PassHolds r₀ o₀ m'.registry m'.deleted (objects.after pc)
      (log ++ (if answer = .throws then some pc else none).toList) (m'.ops 0) := by
  unfold stepCleanUp at hs
  split at hs
  · -- lockIteration
    split at hs
    · dsimp only at hs
      split at hs <;> cases hs <;> exact .goto ((List.append_nil log).symm ▸ h)
    · cases hs
  · cases hs; exact .goto ((List.append_nil log).symm ▸ h)
  · cases hs; exact .goto trivial
  · cases hs
    obtain ⟨hclaimed, rfl⟩ := h
    exact .goto (.first (iff_of_true hclaimed.throws_early trivial))
  · -- takeSnapshot
    cases hs
    obtain ⟨hclaimed, rfl⟩ := h
    exact .goto ⟨congrArg Registry.threads hclaimed.registry, hclaimed, rfl⟩
  · cases hs
    obtain ⟨hclaimed, rfl⟩ := h
    exact .goto (.first (iff_of_true hclaimed.throws_early trivial))
  · cases hs
    obtain ⟨rfl, hclaimed, rfl⟩ := h
    exact .goto ⟨[], rfl, hclaimed, rfl⟩
  · cases hs
    obtain ⟨rfl, hclaimed, rfl⟩ := h
    exact .goto (.first (iff_of_true hclaimed.throws_early trivial))
  · -- getThreadState, at the end of the snapshot
    cases hs
    obtain ⟨done, hsplit, hclaimed, rfl⟩ := h
    rw [List.append_nil] at hsplit
    subst hsplit
    exact .goto ⟨hclaimed, rfl⟩
  · -- getThreadState
    rename_i record rest claimed r
    obtain ⟨done, hsplit, hclaimed, rfl⟩ := h
    have hm : record ∈ r₀.threads := by rw [hsplit]; simp
    split at hs
    · rename_i hnull
      exact absurd (hnull ▸ List.mem_map.2 ⟨record, hm, rfl⟩) hr.not_null
    · cases answer with
      | returnsBool terminated =>
        cases hs
        refine .goto ?_
        cases terminated with
        | true => exact ⟨done, hsplit, hclaimed, rfl⟩
        | false =>
          refine ⟨done ++ [record], by simp [hsplit], hclaimed.skip ?_, rfl⟩
          rintro ⟨o, ho, hclaim⟩
          rw [← hclaimed.untouched (new_of_split hr hsplit)] at ho
          have hstate : o.threadState ≠ .terminated := by simpa [Objects.answers, ho] using ha
          simp [ThreadObject.tryClaimAutomaticCleanup, hstate] at hclaim
      | throws =>
        cases hs
        exact .goto (.first (hclaimed.throws hr hsplit))
      | returns | threadID _ | status _ => cases hs
  · -- tryClaim
    rename_i record rest claimed r won
    obtain ⟨done, hsplit, hclaimed, rfl⟩ := h
    have hnext := hclaimed.claim (new_of_split hr hsplit) ha
    cases won with
    | true =>
      cases hs
      exact .goto ⟨done, hsplit, hnext, rfl⟩
    | false =>
      cases hs
      exact .goto ⟨done ++ [record], by simp [hsplit], hnext, rfl⟩
  · cases hs
    rename_i record rest claimed r
    obtain ⟨done, hsplit, hclaimed, rfl⟩ := h
    have hcustom : objects record.thread = none := by
      cases ho : objects record.thread with
      | none => rfl
      | some o => simp [Objects.answers, ho] at ha
    have hsame : objects.after (.tryClaim record rest claimed r) = objects := by
      simp only [Objects.after, hcustom, Option.map_none]
      exact Function.update_eq_self_iff.2 hcustom.symm
    rw [hsame]
    exact .goto (.first (hclaimed.throws hr hsplit))
  · -- notifyClaimed
    cases hs
    obtain ⟨done, hsplit, hclaimed, rfl⟩ := h
    exact .goto ⟨_, by simp [hsplit], hclaimed, rfl⟩
  · cases hs
    obtain ⟨done, hsplit, hclaimed, rfl⟩ := h
    exact .goto (.first (hclaimed.throws_claimed hr hsplit))
  · -- removeClaimed
    cases hs
    obtain ⟨hclaimed, rfl⟩ := h
    obtain ⟨hall, hswept⟩ := hclaimed.sweep hr
    exact .goto ⟨hall, hswept, rfl⟩
  · cases hs; exact .goto ((List.append_nil log).symm ▸ h)
  · cases hs
    obtain ⟨-, hswept, rfl⟩ := h
    exact .goto ⟨hswept, rfl⟩
  · -- notifyRemoved
    rename_i c rest r
    obtain ⟨hall, hswept, rfl⟩ := h
    rw [if_pos (hall c List.mem_cons_self)] at hs
    split at hs <;> cases hs
    · exact .goto ⟨fun d hd => hall d (List.mem_cons_of_mem _ hd), hswept, rfl⟩
    · exact .goto (.first (hswept.throws hr))
  · -- deleteThread
    cases hs
    obtain ⟨hall, hswept, rfl⟩ := h
    exact .goto ⟨hall, hswept.delete, rfl⟩
  · cases hs; exact .goto trivial
  · cases hs
    obtain ⟨hswept, rfl⟩ := h
    exact .goto (.first (iff_of_true hswept.nothingLost trivial))
  · cases hs; exact .goto (h.append _)
  · cases hs; exact .goto (h.append _)
  · cases hs; exact .goto (h.append _)
  · cases hs

end Step

/-- A pass that throws loses no eligible `Thread` exactly when the call that
throws is one at which the pass holds no claim on a `Thread`. -/
theorem failed_pass_loses_nothing (registry : Registry) (hr : registry.WellFormed) (objects : Objects)
    (activeIterations : Nat) (x : (Machine × Objects) × List PassPc)
    (h : (failingPass registry objects activeIterations).Reachable x) (ht : x.1.1.ops 0 = .returned .thrown) :
    ∃ pc, x.2.head? = some pc ∧
      (NothingLost registry objects x.1.1.registry x.1.1.deleted x.1.2 ↔ pc.Safe registry objects) := by
  have hinv : PassHolds registry objects x.1.1.registry x.1.1.deleted x.1.2 x.2 (x.1.1.ops 0) := by
    refine h.invariant (I := fun x => PassHolds registry objects x.1.1.registry x.1.1.deleted x.1.2 x.2 (x.1.1.ops 0))
      (fun x hx => ?_) fun x a y hi _ hs => ?_
    · obtain ⟨⟨m, o⟩, log⟩ := x
      obtain ⟨hx, hlog⟩ := hx
      cases hx
      cases hlog
      refine .goto ⟨⟨rfl, rfl, nofun, List.Sublist.refl _, nofun, nofun, fun t hne => ?_⟩, rfl⟩
      exact absurd rfl hne
    · obtain ⟨⟨m, o⟩, log⟩ := x
      obtain ⟨⟨m', o'⟩, log'⟩ := y
      obtain ⟨hstep, rfl⟩ := System.logged_step.1 hs
      simp only [passStep] at hstep
      split at hstep
      · rename_i caller pc hpc
        split at hstep
        · rename_i ha
          obtain ⟨m₁, hm₁, he⟩ := Option.map_eq_some_iff.1 hstep
          cases he
          simp only [hpc] at hi
          cases caller with
          | task =>
            have hnext := hi.stepped hr ha hm₁
            simpa only [thrownBy, hpc] using hnext
          | iterationGuard outcome => exact hi.elim
        · cases hstep
      · cases hstep
  rw [ht] at hinv
  exact hinv

/-! Thread 1 is eligible, and thread 2 is a custom object. -/

def threadAndCustom : Registry := ⟨[⟨1, 1, 0⟩, ⟨2, 2, 0⟩], 0⟩

theorem threadAndCustom_wellFormed : threadAndCustom.WellFormed := ⟨by decide, by decide⟩

def oneEligible : Objects := fun t => if t = 1 then some ⟨.terminated, true, .available⟩ else none

/-- The pass up to the call of the custom object. -/
def claimFirst : List Answer :=
  [.returns, .returns, .returns, .returnsBool true, .returnsBool true, .returns]

/-- The last notification throws after thread 1 is deleted. -/
theorem completed_loses_nothing : ∃ x, (failingPass threadAndCustom oneEligible 0).Reachable x ∧
    x.1.1.ops 0 = .returned .thrown ∧ x.1.1.deleted = [1] ∧
    ∃ pc, x.2.head? = some pc ∧ (NothingLost threadAndCustom oneEligible x.1.1.registry x.1.1.deleted x.1.2 ↔
      pc.Safe threadAndCustom oneEligible) := by
  have hrun : ((failingPass threadAndCustom oneEligible 0).replay (passStart threadAndCustom oneEligible 0, [])
      (claimFirst ++ [.returnsBool false, .returns, .returns, .returns, .returns, .returns, .returns, .throws,
        .returns])).map
      (fun x => (x.1.1.ops 0, x.1.1.deleted)) = some (.returned .thrown, [1]) := by
    decide +kernel
  obtain ⟨x, hs, hp⟩ := Option.map_eq_some_iff.1 hrun
  have hr := System.reachable_of_replay (S := failingPass threadAndCustom oneEligible 0) ⟨rfl, rfl⟩ hs
  have ht := congrArg Prod.fst hp
  exact ⟨x, hr, ht, congrArg Prod.snd hp,
    failed_pass_loses_nothing threadAndCustom threadAndCustom_wellFormed oneEligible 0 x hr ht⟩

/-- The custom object throws: thread 1 is claimed for good, and no pass will
delete it. -/
theorem claimed_thread_lost : ¬ ∀ (registry : Registry) (objects : Objects) (activeIterations : Nat)
    (x : (Machine × Objects) × List PassPc), registry.WellFormed →
    (failingPass registry objects activeIterations).Reachable x → x.1.1.ops 0 = .returned .thrown →
    NothingLost registry objects x.1.1.registry x.1.1.deleted x.1.2 := by
  intro hall
  have hrun : ((failingPass threadAndCustom oneEligible 0).replay (passStart threadAndCustom oneEligible 0, [])
      (claimFirst ++ [.throws, .returns, .returns])).map (fun x => (x.1.1.ops 0, x.1.1.deleted, x.1.2 1)) =
      some (.returned .thrown, [], some ⟨.terminated, true, .automatic⟩) := by
    decide +kernel
  obtain ⟨x, hs, hp⟩ := Option.map_eq_some_iff.1 hrun
  have hr := System.reachable_of_replay (S := failingPass threadAndCustom oneEligible 0) ⟨rfl, rfl⟩ hs
  have hdeleted : x.1.1.deleted = [] := congrArg (fun p => p.2.1) hp
  have hobject : x.1.2 1 = some ⟨.terminated, true, .automatic⟩ := congrArg (fun p => p.2.2) hp
  have hnothing := hall _ _ _ x threadAndCustom_wellFormed hr (congrArg Prod.fst hp)
  rcases hnothing.eligible 1 (by decide) ⟨_, rfl, rfl⟩ with hd | ⟨-, o, ho, hclaim⟩
  · rw [hdeleted] at hd
    cases hd
  · rw [hobject] at ho
    cases ho
    cases hclaim

end ESPressio.Manager
