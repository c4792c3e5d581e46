import Mathlib.Data.List.Perm.Basic
import ESPressioThreads.Manager.FailedPass
/-!
# What a completed pass removes

A pass matches claims from its snapshot against the registry as it is when it
removes them. A log of the snapshot, the answers of the threads, the removal,
the notifications and the deletions says which records those are, whatever
other operations did to the registry meanwhile. The call of `RemoveThread` in
the destructor of a deleted thread is one of those operations.
-/

namespace ESPressio.Manager

open Transition

/-- What a step shows of a pass. -/
inductive SweepEvent
  | snapshot (records : List ThreadRecord)
  | state (record : ThreadRecord) (terminated : Bool)
  | claim (record : ThreadRecord) (won : Bool)
  | removal (before after : Registry)
  | threadRemoved (id : UInt8)
  | deleted (t : ThreadPtr)
  | completed (r : CleanupResult)
  deriving DecidableEq, Repr

def PassPc.sweepEvent (registry : Registry) : PassPc → Answer → Option SweepEvent
  | .takeSnapshot, .returns => some (.snapshot registry.threads)
  | .getThreadState (record :: _) _ _, .returnsBool terminated =>
    if record.thread = nullptr then none else some (.state record terminated)
  | .tryClaim record _ _ _, .returnsBool won => some (.claim record won)
  | .removeClaimed claimed _, .returns => some (.removal registry (registry.removeClaimed claimed).1)
  | .notifyRemoved (c :: _) _, .returns | .notifyRemoved (c :: _) _, .throws =>
    if c.removed then some (.threadRemoved c.id) else none
  | .deleteThread c _ _, .returns => some (.deleted c.thread)
  | .notifyCompleted r, .returns => some (.completed r)
  | _, _ => none

/-- The events, each with the operation whose pass it belongs to. -/
def sweepEvent (m : Machine) : Action → Option (OpId × SweepEvent)
  | .call _ _ => none
  | .step i answer =>
    match m.ops i with
    | .cleanUp _ pc => (pc.sweepEvent m.registry answer).map fun e => (i, e)
    | _ => none

/-- The manager with the log of its passes. -/
def loggedSweeps (coreCount : Nat) : System (Machine × List (OpId × SweepEvent)) Action :=
  (system coreCount).logged sweepEvent

/-- What the log shows of the pass of operation `i`. -/
def sweepTrace (i : OpId) (log : List (OpId × SweepEvent)) : List SweepEvent :=
  log.filterMap fun x => if x.1 = i then some x.2 else none

/-- The threads a pass deleted. -/
def deletions (l : List SweepEvent) : List ThreadPtr :=
  l.filterMap fun
    | .deleted t => some t
    | _ => none

/-- The IDs a pass announced with `ThreadRemoved`. -/
def announcements (l : List SweepEvent) : List UInt8 :=
  l.filterMap fun
    | .threadRemoved id => some id
    | _ => none

def SweepEvent.Asks : SweepEvent → Prop
  | .state _ _ | .claim _ _ => True
  | _ => False

def SweepEvent.Leaves : SweepEvent → Prop
  | .threadRemoved _ | .deleted _ => True
  | _ => False

/-- The answer of a thread that was claimed. -/
def SweepEvent.claims : SweepEvent → Bool
  | .claim _ won => won
  | _ => false

/-- A record with this ID and pointer was in the snapshot of the pass, was
`Terminated`, and was claimed. -/
def Doomed (l : List SweepEvent) (snapshot : List ThreadRecord) (record : ThreadRecord) : Prop :=
  ∃ s ∈ snapshot, s.key = record.key ∧ .state s true ∈ l ∧ .claim s true ∈ l

instance (l : List SweepEvent) (snapshot : List ThreadRecord) : DecidablePred (Doomed l snapshot) :=
  fun _ => inferInstanceAs (Decidable (∃ s ∈ snapshot, _))

/-- A pass that returned `r`: its snapshot, and the registry right before and
right after the removal. -/
structure ExactPass (l : List SweepEvent) (snapshot : List ThreadRecord) (before after : Registry)
    (r : CleanupResult) : Prop where
  phases : ∃ asks exits, l = .snapshot snapshot :: asks ++ .removal before after :: exits ++ [.completed r] ∧
    (∀ e ∈ asks, e.Asks) ∧ ∀ e ∈ exits, e.Leaves
  kept : after = { before with threads := before.threads.filter fun record => ¬ Doomed l snapshot record }
  deleted : (deletions l).Perm ((before.threads.filter fun record => Doomed l snapshot record).map (·.thread))
  once : (deletions l).Nodup
  announced : (announcements l).Perm ((before.threads.filter fun record => Doomed l snapshot record).map (·.id))
  deletedCount : r.threadsDeleted = r.threadsRemoved
  removedCount : r.threadsRemoved = (before.threads.filter fun record => Doomed l snapshot record).length
  removed_le : r.threadsRemoved ≤ r.threadsClaimed
  claimedCount : r.threadsClaimed = l.countP SweepEvent.claims
  claimed_le : r.threadsClaimed ≤ r.threadsExamined
  examinedCount : r.threadsExamined = snapshot.length
  countAfter : r.threadCountAfter = after.threads.length

variable {r : Registry} {c : ClaimedCleanupRecord} {cs : List ClaimedCleanupRecord} {record : ThreadRecord}

/-! ## The removal -/

namespace Registry

theorem matching_iff : matching c record = true ↔ record.key = c.key := by
  simp [matching, ThreadRecord.key, ClaimedCleanupRecord.key]

theorem eraseP_matching {l : List ThreadRecord} (hn : (l.map (·.thread)).Nodup) (c : ClaimedCleanupRecord) :
    l.eraseP (matching c) = l.filter fun record => record.key ≠ c.key := by
  induction l with
  | nil => rfl
  | cons a l ih =>
    obtain ⟨ha, hn⟩ := List.nodup_cons.1 hn
    by_cases hm : matching c a = true
    · have hkey := matching_iff.1 hm
      have hrest : ∀ b ∈ l, b.key ≠ c.key := fun b hb hbk =>
        ha (List.mem_map.2 ⟨b, hb, congrArg Prod.snd (hbk.trans hkey.symm)⟩)
      rw [List.eraseP_cons_of_pos hm, List.filter_cons_of_neg (by simpa using hkey)]
      exact (List.filter_eq_self.2 fun b hb => by simpa using hrest b hb).symm
    · have hkey : a.key ≠ c.key := fun hk => hm (matching_iff.2 hk)
      rw [List.eraseP_cons_of_neg hm, List.filter_cons_of_pos (by simpa using hkey), ih hn]

/-- With distinct pointers, one round erases the one record that matches. -/
theorem removeOne_threads (hr : r.WellFormed) (c : ClaimedCleanupRecord) :
    (r.removeOne c).1.threads = r.threads.filter fun record => record.key ≠ c.key := by
  have herase := eraseP_matching hr.pointers_nodup c
  unfold removeOne
  split
  · exact herase
  · rename_i hany
    rw [← herase]
    exact (List.eraseP_of_forall_not fun a ha hm => hany (List.any_eq_true.2 ⟨a, ha, hm⟩)).symm

theorem removeOne_removed_iff (hc : c.removed = false) :
    (r.removeOne c).2.removed = true ↔ ∃ record ∈ r.threads, record.key = c.key := by
  unfold removeOne
  split
  · rename_i hany
    obtain ⟨a, ha, hm⟩ := List.any_eq_true.1 hany
    exact ⟨fun _ => ⟨a, ha, matching_iff.1 hm⟩, fun _ => rfl⟩
  · rename_i hany
    refine ⟨fun h => ?_, fun ⟨a, ha, hk⟩ => absurd (List.any_eq_true.2 ⟨a, ha, matching_iff.2 hk⟩) hany⟩
    rw [hc] at h
    cases h

theorem removeOne_key (c : ClaimedCleanupRecord) : (r.removeOne c).2.key = c.key := by
  unfold removeOne
  split <;> rfl

theorem removeOne_wellFormed (hr : r.WellFormed) (c : ClaimedCleanupRecord) : (r.removeOne c).1.WellFormed :=
  hr.sublist (removeOne_pointers_sublist c)

/-- The removal keeps the records that no claim matches. -/
theorem removeClaimed_filter (hr : r.WellFormed) (cs : List ClaimedCleanupRecord) :
    (r.removeClaimed cs).1 =
      { r with threads := r.threads.filter fun record => ∀ c ∈ cs, record.key ≠ c.key } := by
  have hnext := (removeClaimed_sublist (r := r) cs).2
  have hthreads : (r.removeClaimed cs).1.threads =
      r.threads.filter fun record => ∀ c ∈ cs, record.key ≠ c.key := by
    clear hnext
    induction cs generalizing r with
    | nil => simp [removeClaimed]
    | cons c cs ih =>
      simp only [removeClaimed]
      rw [ih (removeOne_wellFormed hr c), removeOne_threads hr c, List.filter_filter]
      refine List.filter_congr fun record _ => ?_
      simp only [ne_eq, List.mem_cons, forall_eq_or_imp, Bool.decide_and, decide_not]
      exact Bool.and_comm _ _
  cases hr' : (r.removeClaimed cs).1 with
  | mk threads nextCoreID =>
    rw [hr'] at hthreads hnext
    exact congr (congrArg Registry.mk hthreads) hnext

/-- It marks the claims that were registered. -/
theorem removeClaimed_marks (hr : r.WellFormed) (hn : (cs.map ClaimedCleanupRecord.key).Nodup)
    (hcs : ∀ c ∈ cs, c.removed = false) :
    ((r.removeClaimed cs).2.filter fun c => c.removed).map ClaimedCleanupRecord.key =
      (cs.map ClaimedCleanupRecord.key).filter fun key => ∃ record ∈ r.threads, record.key = key := by
  induction cs generalizing r with
  | nil => rfl
  | cons c cs ih =>
    obtain ⟨hc, hn⟩ := List.nodup_cons.1 hn
    have hrest := ih (removeOne_wellFormed hr c) hn fun d hd => hcs d (List.mem_cons_of_mem _ hd)
    -- Erasing the match of `c` takes no other claim its match.
    have hsame : (cs.map ClaimedCleanupRecord.key).filter
        (fun key => ∃ record ∈ (r.removeOne c).1.threads, record.key = key) =
        (cs.map ClaimedCleanupRecord.key).filter fun key => ∃ record ∈ r.threads, record.key = key := by
      refine List.filter_congr fun key hkey => ?_
      have hne : key ≠ c.key := fun he => hc (he ▸ hkey)
      simp only [removeOne_threads hr c, List.mem_filter, decide_eq_decide]
      constructor
      · rintro ⟨record, ⟨hm, -⟩, hk⟩
        exact ⟨record, hm, hk⟩
      · rintro ⟨record, hm, hk⟩
        exact ⟨record, ⟨hm, by simpa [hk] using hne⟩, hk⟩
    have hiff := removeOne_removed_iff (r := r) (hcs c List.mem_cons_self)
    simp only [removeClaimed, List.map_cons]
    by_cases hm : ∃ record ∈ r.threads, record.key = c.key
    · rw [List.filter_cons_of_pos (hiff.2 hm), List.filter_cons_of_pos (by simpa using hm), List.map_cons,
        removeOne_key, hrest, hsame]
    · rw [List.filter_cons_of_neg (fun h => hm (hiff.1 h)), List.filter_cons_of_neg (by simpa using hm), hrest, hsame]

end Registry

/-! ## The log of one pass -/

/-- What became of a record of the snapshot. -/
inductive Verdict
  | null
  | running
  | refused
  | claimed
  deriving DecidableEq

def Verdict.asks (record : ThreadRecord) : Verdict → List SweepEvent
  | .null => []
  | .running => [.state record false]
  | .refused => [.state record true, .claim record false]
  | .claimed => [.state record true, .claim record true]

def asksOf (vs : List (ThreadRecord × Verdict)) : List SweepEvent := vs.flatMap fun v => v.2.asks v.1

def claimsOf (vs : List (ThreadRecord × Verdict)) : List ClaimedCleanupRecord :=
  (vs.filter fun v => v.2 = .claimed).map fun v => ⟨v.1.id, v.1.thread, false⟩

def exitsOf (cs : List ClaimedCleanupRecord) : List SweepEvent :=
  (cs.filter fun c => c.removed).flatMap fun c => [.threadRemoved c.id, .deleted c.thread]

/-- A pass that has asked the threads of `vs` and has yet to ask those of `rest`. -/
def askLog (vs : List (ThreadRecord × Verdict)) (rest : List ThreadRecord) : List SweepEvent :=
  .snapshot (vs.map (·.1) ++ rest) :: asksOf vs

def askResult (vs : List (ThreadRecord × Verdict)) (rest : List ThreadRecord) : CleanupResult :=
  { threadsExamined := (vs.map (·.1) ++ rest).length, threadsClaimed := (claimsOf vs).length
    threadCountBefore := (vs.map (·.1) ++ rest).length }

/-- A pass that has removed its claims and has deleted those of `gone`. -/
def leaveLog (vs : List (ThreadRecord × Verdict)) (before : Registry) (gone : List ClaimedCleanupRecord) :
    List SweepEvent :=
  askLog vs [] ++ .removal before (before.removeClaimed (claimsOf vs)).1 :: exitsOf gone

def leaveResult (vs : List (ThreadRecord × Verdict)) (before : Registry) (gone : List ClaimedCleanupRecord) :
    CleanupResult :=
  { askResult vs [] with
    threadsRemoved := (doomed (before.removeClaimed (claimsOf vs)).2).length
    threadsDeleted := (doomed gone).length
    threadCountAfter := (before.removeClaimed (claimsOf vs)).1.threads.length }

/-- No pass of the operation has taken its snapshot. -/
def Pc.Early : Pc → Prop
  | .cleanUp _ .lockIteration | .cleanUp _ .deferring | .cleanUp _ (.notifyDeferred _)
  | .cleanUp _ .takeSnapshot => True
  | .cleanUp _ _ => False
  | _ => True

def Pc.Failing : Pc → Prop
  | .cleanUp _ (.unlockFailed _) | .cleanUp _ (.notifyFailed _) | .returned _ => True
  | _ => False

/-- What the log shows of a pass, by where it is. -/
inductive PassLog : Pc → List SweepEvent → Prop
  | early (pc : Pc) : pc.Early → PassLog pc []
  | started (caller : Caller) (snapshot : List ThreadRecord) : (snapshot.map (·.thread)).Nodup →
      PassLog (.cleanUp caller (.notifyStarted snapshot (askResult [] snapshot))) (askLog [] snapshot)
  | asking (caller : Caller) (vs : List (ThreadRecord × Verdict)) (rest : List ThreadRecord) :
      ((vs.map (·.1) ++ rest).map (·.thread)).Nodup →
      PassLog (.cleanUp caller (.getThreadState rest (claimsOf vs) (askResult vs rest))) (askLog vs rest)
  | claiming (caller : Caller) (vs : List (ThreadRecord × Verdict)) (record : ThreadRecord)
      (rest : List ThreadRecord) : ((vs.map (·.1) ++ record :: rest).map (·.thread)).Nodup →
      PassLog (.cleanUp caller (.tryClaim record rest (claimsOf vs) (askResult vs (record :: rest))))
        (askLog vs (record :: rest) ++ [.state record true])
  | claimed (caller : Caller) (vs : List (ThreadRecord × Verdict)) (record : ThreadRecord)
      (rest : List ThreadRecord) : ((vs.map (·.1) ++ rest).map (·.thread)).Nodup →
      PassLog (.cleanUp caller (.notifyClaimed record rest (claimsOf vs) (askResult vs rest))) (askLog vs rest)
  | removing (caller : Caller) (vs : List (ThreadRecord × Verdict)) : ((vs.map (·.1)).map (·.thread)).Nodup →
      PassLog (.cleanUp caller (.removeClaimed (claimsOf vs) (askResult vs []))) (askLog vs [])
  | removed (caller : Caller) (vs : List (ThreadRecord × Verdict)) (before : Registry) :
      ((vs.map (·.1)).map (·.thread)).Nodup → before.WellFormed →
      PassLog (.cleanUp caller (.unlock (before.removeClaimed (claimsOf vs)).2 (leaveResult vs before [])))
        (leaveLog vs before [])
  | leaving (caller : Caller) (vs : List (ThreadRecord × Verdict)) (before : Registry)
      (gone rest : List ClaimedCleanupRecord) : ((vs.map (·.1)).map (·.thread)).Nodup → before.WellFormed →
      (before.removeClaimed (claimsOf vs)).2 = gone ++ rest →
      PassLog (.cleanUp caller (.notifyRemoved rest (leaveResult vs before gone))) (leaveLog vs before gone)
  | deleting (caller : Caller) (vs : List (ThreadRecord × Verdict)) (before : Registry)
      (gone : List ClaimedCleanupRecord) (c : ClaimedCleanupRecord) (rest : List ClaimedCleanupRecord) :
      ((vs.map (·.1)).map (·.thread)).Nodup → before.WellFormed →
      (before.removeClaimed (claimsOf vs)).2 = gone ++ c :: rest → c.removed = true →
      PassLog (.cleanUp caller (.deleteThread c rest (leaveResult vs before gone)))
        (leaveLog vs before gone ++ [.threadRemoved c.id])
  | completing (caller : Caller) (vs : List (ThreadRecord × Verdict)) (before : Registry) :
      ((vs.map (·.1)).map (·.thread)).Nodup → before.WellFormed →
      PassLog (.cleanUp caller (.notifyCompleted (leaveResult vs before (before.removeClaimed (claimsOf vs)).2)))
        (leaveLog vs before (before.removeClaimed (claimsOf vs)).2)
  | completed (outcome : Outcome) (vs : List (ThreadRecord × Verdict)) (before : Registry) :
      ((vs.map (·.1)).map (·.thread)).Nodup → before.WellFormed →
      PassLog (.returned outcome) (leaveLog vs before (before.removeClaimed (claimsOf vs)).2 ++
        [.completed (leaveResult vs before (before.removeClaimed (claimsOf vs)).2)])
  | failed (pc : Pc) (l : List SweepEvent) : pc.Failing → (∀ r, .completed r ∉ l) → PassLog pc l

section
variable {vs : List (ThreadRecord × Verdict)} {rest : List ThreadRecord} {v : Verdict}
  {before : Registry} {gone : List ClaimedCleanupRecord}

theorem askLog_snoc (v : Verdict) :
    askLog (vs ++ [(record, v)]) rest = askLog vs (record :: rest) ++ v.asks record := by
  simp [askLog, asksOf]

theorem claimsOf_snoc (h : v ≠ .claimed) : claimsOf (vs ++ [(record, v)]) = claimsOf vs := by
  simp [claimsOf, h]

theorem claimsOf_claimed :
    claimsOf (vs ++ [(record, .claimed)]) = claimsOf vs ++ [⟨record.id, record.thread, false⟩] := by
  simp [claimsOf]

theorem askResult_snoc (h : v ≠ .claimed) : askResult (vs ++ [(record, v)]) rest = askResult vs (record :: rest) := by
  simp [askResult, claimsOf_snoc h]

theorem leaveLog_snoc : leaveLog vs before (gone ++ [c]) = leaveLog vs before gone ++ exitsOf [c] := by
  simp [leaveLog, exitsOf]

theorem asks_of_mem {e : SweepEvent} (h : e ∈ asksOf vs) : e.Asks := by
  obtain ⟨⟨record, v⟩, -, he⟩ := List.mem_flatMap.1 h
  cases v <;> simp [Verdict.asks] at he <;> rcases he with rfl | rfl <;> trivial

theorem leaves_of_mem {e : SweepEvent} (h : e ∈ exitsOf gone) : e.Leaves := by
  obtain ⟨c, -, he⟩ := List.mem_flatMap.1 h
  simp only [List.mem_cons, List.not_mem_nil, or_false] at he
  rcases he with rfl | rfl <;> trivial

theorem askLog_running (r : CleanupResult) : .completed r ∉ askLog vs rest := by
  intro h
  rcases List.mem_cons.1 h with he | he
  · cases he
  · exact asks_of_mem he

theorem leaveLog_running (r : CleanupResult) : .completed r ∉ leaveLog vs before gone := by
  intro h
  rcases List.mem_append.1 h with he | he
  · exact askLog_running r he
  · rcases List.mem_cons.1 he with he | he
    · cases he
    · exact leaves_of_mem he

end

/-! ## One step -/

section Step
variable {m m' : Machine} {i : OpId} {coreCount : Nat} {answer : Answer} {caller : Caller} {pc : PassPc}
  {l : List SweepEvent}

/-- The pass threw: it will not complete. -/
theorem PassLog.threw {pc' : Pc} {e : Option SweepEvent} (hpc : pc'.Failing) (hl : ∀ r, .completed r ∉ l)
    (he : ∀ r, e ≠ some (.completed r)) : PassLog pc' (l ++ e.toList) := by
  refine .failed _ _ hpc fun r hr => ?_
  rcases List.mem_append.1 hr with hr | hr
  · exact hl r hr
  · exact he r (Option.mem_toList.1 hr)

/-- One step of a pass. -/
theorem PassLog.stepped (hr : m.registry.WellFormed) (h : PassLog (.cleanUp caller pc) l)
    (hs : stepCleanUp m i caller pc answer = some m') :
    PassLog (m'.ops i) (l ++ (pc.sweepEvent m.registry answer).toList) := by
  cases h with
  | early _ he =>
    cases pc with
    | lockIteration =>
      cases answer <;> simp only [stepCleanUp, reduceCtorEq] at hs
      split at hs
      · split at hs <;> cases hs <;> (rw [Machine.goto_ops]; exact .early _ trivial)
      · cases hs
    | deferring =>
      cases answer <;> cases hs
      rw [Machine.goto_ops]
      exact .early _ trivial
    | notifyDeferred r =>
      cases answer <;> cases hs <;> (rw [Machine.goto_ops]; exact .early _ trivial)
    | takeSnapshot =>
      cases answer <;> cases hs
      · rw [Machine.goto_ops]
        exact .started caller m.registry.threads hr.pointers_nodup
      · rw [Machine.goto_ops]
        exact .threw trivial (by rintro _ ⟨⟩) (by rintro _ ⟨⟩)
    | _ => cases he
  | started _ snapshot hn =>
    cases answer <;> cases hs <;> rw [Machine.goto_ops]
    · exact (List.append_nil _).symm ▸ .asking caller [] snapshot hn
    · exact .threw trivial askLog_running (by rintro _ ⟨⟩)
  | asking _ vs rest hn =>
    cases rest with
    | nil =>
      cases answer <;> cases hs
      rw [Machine.goto_ops]
      exact (List.append_nil _).symm ▸ .removing caller vs (by simpa using hn)
    | cons record rest =>
      have hnext : ∀ v : Verdict, (((vs ++ [(record, v)]).map (·.1) ++ rest).map (·.thread)).Nodup :=
        fun v => by simpa using hn
      simp only [stepCleanUp] at hs
      split at hs
      · rename_i hnull
        cases hs
        have hevent : (PassPc.getThreadState (record :: rest) (claimsOf vs) (askResult vs (record :: rest))).sweepEvent
            m.registry answer = none := by
          cases answer <;> simp [PassPc.sweepEvent, hnull]
        have hlog := PassLog.asking caller (vs ++ [(record, .null)]) rest (hnext .null)
        rw [askLog_snoc, claimsOf_snoc (by decide), askResult_snoc (by decide)] at hlog
        rw [Machine.goto_ops, hevent]
        exact hlog
      · rename_i hnull
        cases answer with
        | returnsBool terminated =>
          cases hs
          simp only [Machine.goto_ops, PassPc.sweepEvent, if_neg hnull]
          cases terminated with
          | true => exact .claiming caller vs record rest hn
          | false =>
            have hlog := PassLog.asking caller (vs ++ [(record, .running)]) rest (hnext .running)
            rw [askLog_snoc, claimsOf_snoc (by decide), askResult_snoc (by decide)] at hlog
            exact hlog
        | throws =>
          cases hs
          rw [Machine.goto_ops]
          exact .threw trivial askLog_running (by rintro _ ⟨⟩)
        | _ => cases hs
  | claiming _ vs record rest hn =>
    have hnext : ∀ v : Verdict, (((vs ++ [(record, v)]).map (·.1) ++ rest).map (·.thread)).Nodup :=
      fun v => by simpa using hn
    cases answer with
    | returnsBool won =>
      cases won with
      | true =>
        cases hs
        have hlog := PassLog.claimed caller (vs ++ [(record, .claimed)]) record rest (hnext .claimed)
        rw [askLog_snoc, claimsOf_claimed] at hlog
        rw [Machine.goto_ops]
        simpa [askResult, claimsOf_claimed, PassPc.sweepEvent, Verdict.asks] using hlog
      | false =>
        cases hs
        have hlog := PassLog.asking caller (vs ++ [(record, .refused)]) rest (hnext .refused)
        rw [askLog_snoc, claimsOf_snoc (by decide), askResult_snoc (by decide)] at hlog
        rw [Machine.goto_ops]
        simpa [PassPc.sweepEvent, Verdict.asks] using hlog
    | throws =>
      cases hs
      rw [Machine.goto_ops]
      refine .threw trivial (fun r hr => ?_) (by rintro _ ⟨⟩)
      rcases List.mem_append.1 hr with hr | hr
      · exact askLog_running r hr
      · cases List.mem_singleton.1 hr
    | _ => cases hs
  | claimed _ vs record rest hn =>
    cases answer <;> cases hs <;> rw [Machine.goto_ops]
    · exact (List.append_nil _).symm ▸ .asking caller vs rest hn
    · exact .threw trivial askLog_running (by rintro _ ⟨⟩)
  | removing _ vs hn =>
    cases answer <;> cases hs
    rw [Machine.goto_ops]
    have hlog := PassLog.removed caller vs m.registry hn hr
    simpa [leaveLog, leaveResult, askResult, doomed, exitsOf, PassPc.sweepEvent] using hlog
  | removed _ vs before hn hb =>
    cases answer <;> cases hs
    rw [Machine.goto_ops]
    exact (List.append_nil _).symm ▸ .leaving caller vs before [] _ hn hb rfl
  | leaving _ vs before gone rest hn hb hgone =>
    cases rest with
    | nil =>
      cases answer <;> cases hs
      have hlog := PassLog.completing caller vs before hn hb
      rw [hgone, List.append_nil] at hlog
      rw [Machine.goto_ops]
      exact (List.append_nil _).symm ▸ hlog
    | cons c rest =>
      simp only [stepCleanUp] at hs
      split at hs
      · rename_i hremoved
        cases answer with
        | returns =>
          cases hs
          simp only [Machine.goto_ops, PassPc.sweepEvent, if_pos hremoved]
          exact .deleting caller vs before gone c rest hn hb hgone hremoved
        | throws =>
          cases hs
          rw [Machine.goto_ops]
          refine .threw trivial leaveLog_running fun r => ?_
          simp [PassPc.sweepEvent, hremoved]
        | _ => cases hs
      · rename_i hremoved
        cases hs
        have hevent : (PassPc.notifyRemoved (c :: rest) (leaveResult vs before gone)).sweepEvent m.registry answer =
            none := by
          cases answer <;> simp [PassPc.sweepEvent, hremoved]
        have hlog := PassLog.leaving caller vs before (gone ++ [c]) rest hn hb (by simpa using hgone)
        rw [Machine.goto_ops, hevent]
        simpa [leaveLog_snoc, exitsOf, leaveResult, doomed, hremoved] using hlog
  | deleting _ vs before gone c rest hn hb hgone hremoved =>
    cases answer <;> cases hs
    have hlog := PassLog.leaving caller vs before (gone ++ [c]) rest hn hb (by simpa using hgone)
    rw [Machine.goto_ops]
    simpa [leaveLog_snoc, exitsOf, leaveResult, doomed, hremoved, PassPc.sweepEvent] using hlog
  | completing _ vs before hn hb =>
    cases answer <;> cases hs <;> rw [Machine.goto_ops]
    · exact .completed _ vs before hn hb
    · exact .threw trivial leaveLog_running (by rintro _ ⟨⟩)
  | failed _ _ hf hl =>
    cases pc with
    | unlockFailed r =>
      cases answer <;> cases hs
      rw [Machine.goto_ops]
      exact .threw trivial hl (by rintro _ ⟨⟩)
    | notifyFailed r =>
      cases answer <;> cases hs <;> (rw [Machine.goto_ops]; exact .threw trivial hl (by rintro _ ⟨⟩))
    | _ => cases hf

/-- What a call of `CleanUpWithResult` returns, unless the pass was deferred, is
in its log, and an iteration returns no such result. -/
def Pc.Honest (l : List SweepEvent) : Pc → Prop
  | .returned (.cleanup r) => r.wasDeferred = true ∨ .completed r ∈ l
  | .iteration _ (.endIteration _ outcome) => ∀ r, outcome ≠ .cleanup r
  | .cleanUp caller pc =>
    (∀ r, caller ≠ .iterationGuard (.cleanup r)) ∧ ∀ r, pc = .notifyDeferred r → r.wasDeferred = true
  | _ => True

theorem Caller.onThrow_honest (caller : Caller) : (Pc.returned caller.onThrow).Honest l := by
  cases caller <;> trivial

/-- A pass hands its result to its task, and to no iteration. -/
theorem Caller.onReturn_honest {r : CleanupResult} (hc : ∀ r, caller ≠ .iterationGuard (.cleanup r))
    (h : r.wasDeferred = true ∨ .completed r ∈ l) : (Pc.returned (caller.onReturn r)).Honest l := by
  cases caller with
  | task => exact h
  | iterationGuard outcome =>
    cases outcome with
    | cleanup r => exact absurd rfl (hc r)
    | _ => trivial

theorem honest_stepCleanUp (h : (Pc.cleanUp caller pc).Honest l) (hs : stepCleanUp m i caller pc answer = some m') :
    (m'.ops i).Honest (l ++ (pc.sweepEvent m.registry answer).toList) := by
  obtain ⟨hc, hd⟩ := h
  have hstay : ∀ {m₁ : Machine} {pc' : PassPc}, (∀ r, pc' ≠ .notifyDeferred r) →
      ((m₁.goto i (.cleanUp caller pc')).ops i).Honest (l ++ (pc.sweepEvent m.registry answer).toList) := by
    intro m₁ pc' hne
    rw [Machine.goto_ops]
    exact ⟨hc, fun r hr => absurd hr (hne r)⟩
  unfold stepCleanUp at hs
  split at hs
  case h_2 => cases hs; rw [Machine.goto_ops]; exact ⟨hc, fun r hr => by cases hr; rfl⟩
  case h_3 => cases hs; rw [Machine.goto_ops]; exact Caller.onReturn_honest hc (.inl (hd _ rfl))
  case h_4 => cases hs; rw [Machine.goto_ops]; exact Caller.onThrow_honest caller
  case h_20 =>
    cases hs
    rw [Machine.goto_ops]
    exact Caller.onReturn_honest hc (.inr (List.mem_append_right _ (List.mem_singleton.2 rfl)))
  case h_23 => cases hs; rw [Machine.goto_ops]; exact Caller.onThrow_honest caller
  case h_24 => cases hs; rw [Machine.goto_ops]; exact Caller.onThrow_honest caller
  case h_1 =>
    split at hs
    · dsimp only at hs
      split at hs <;> cases hs <;> exact hstay nofun
    · cases hs
  case h_10 =>
    split at hs
    · cases hs; exact hstay nofun
    · split at hs
      · rename_i terminated
        cases terminated <;> (cases hs; exact hstay nofun)
      · cases hs; exact hstay nofun
      · cases hs
  case h_11 => split at hs <;> cases hs <;> exact hstay nofun
  case h_18 =>
    split at hs
    · split at hs <;> cases hs <;> exact hstay nofun
    · cases hs; exact hstay nofun
  all_goals
    cases hs
    try exact hstay nofun

/-! ## Other operations -/

theorem outside_stepAddThread {t : ThreadPtr} {assigned : Bool} {pc : AddPc}
    (h : stepAddThread coreCount m i t assigned pc answer = some m') : (m'.ops i).Early ∧ (m'.ops i).Honest l := by
  unfold stepAddThread at h
  cases pc with
  | lookUp =>
    dsimp only at h
    split at h
    · cases h; rw [Machine.goto_ops]; exact ⟨trivial, trivial⟩
    · split at h <;> cases h <;> (rw [Machine.goto_ops]; exact ⟨trivial, trivial⟩)
  | getThreadID =>
    dsimp only at h
    split at h <;> cases h <;> (rw [Machine.goto_ops]; exact ⟨trivial, trivial⟩)
  | insert requested =>
    dsimp only at h
    split at h
    · split at h
      · split at h <;> cases h <;> (rw [Machine.goto_ops]; exact ⟨trivial, trivial⟩)
      · cases h; rw [Machine.goto_ops]; exact ⟨trivial, trivial⟩
    · cases h; rw [Machine.goto_ops]; exact ⟨trivial, trivial⟩
  | notifyRegistered record =>
    dsimp only at h
    split at h <;> cases h <;> (rw [Machine.goto_ops]; exact ⟨trivial, trivial⟩)
  | notifyFailed e => cases h; rw [Machine.goto_ops]; exact ⟨trivial, trivial⟩

theorem outside_stepRemoveThread (key : RemoveBy) :
    ((stepRemoveThread m i key).ops i).Early ∧ ((stepRemoveThread m i key).ops i).Honest l := by
  cases key <;> (simp only [stepRemoveThread]; split <;> (rw [Machine.goto_ops]; exact ⟨trivial, trivial⟩))

theorem outside_endIteration {outcome : Outcome} (h : ∀ r, outcome ≠ .cleanup r) :
    ((endIteration m i outcome).ops i).Early ∧ ((endIteration m i outcome).ops i).Honest l := by
  simp only [endIteration]
  split <;> rw [Machine.goto_ops]
  · exact ⟨trivial, fun r hr => h r (by cases hr; rfl), (by rintro _ ⟨⟩)⟩
  · refine ⟨trivial, ?_⟩
    cases outcome with
    | cleanup r => exact absurd rfl (h r)
    | _ => trivial

theorem outcomeOf_honest (v : Visit) (kind : IterationKind) (r : CleanupResult) : outcomeOf v kind ≠ .cleanup r := by
  cases kind <;> nofun

theorem outside_stepIteration {kind : IterationKind} {pc : IterationPc} (hh : (Pc.iteration kind pc).Honest l)
    (h : stepIteration m i kind pc answer = some m') : (m'.ops i).Early ∧ (m'.ops i).Honest l := by
  unfold stepIteration at h
  split at h
  · split at h <;> cases h
    rw [Machine.goto_ops]; exact ⟨trivial, trivial⟩
  · cases h; rw [Machine.goto_ops]; exact ⟨trivial, trivial⟩
  · cases h; rw [Machine.goto_ops]; exact ⟨trivial, nofun⟩
  · split at h <;> cases h <;> rw [Machine.goto_ops]
    · exact ⟨trivial, trivial⟩
    · exact ⟨trivial, outcomeOf_honest _ _⟩
    · exact ⟨trivial, trivial⟩
    · exact ⟨trivial, trivial⟩
    · exact ⟨trivial, trivial⟩
    · exact ⟨trivial, trivial⟩
    · exact ⟨trivial, nofun⟩
    · exact ⟨trivial, nofun⟩
  · cases h; rw [Machine.goto_ops]; exact ⟨trivial, outcomeOf_honest _ _⟩
  · cases h; rw [Machine.goto_ops]; exact ⟨trivial, nofun⟩
  · split at h <;> cases h
    exact outside_endIteration hh
  · cases h

/-- The step of an operation that is in no pass. -/
theorem outside_step (hno : ∀ caller pc, m.ops i ≠ .cleanUp caller pc) (hh : (m.ops i).Honest l)
    (h : step coreCount m (.step i answer) = some m') :
    (∀ o, m.ops i ≠ .returned o) ∧ (m'.ops i).Early ∧ (m'.ops i).Honest l := by
  simp only [step, stepOp] at h
  split at h
  · cases h
  · cases h
  · rename_i hpc
    exact ⟨by simp [hpc], outside_stepAddThread h⟩
  · rename_i hpc
    split at h <;> cases h
    exact ⟨by simp [hpc], outside_stepRemoveThread _⟩
  · rename_i hpc
    refine ⟨by simp [hpc], ?_⟩
    split at h <;> cases h <;> (rw [Machine.goto_ops]; exact ⟨trivial, trivial⟩)
  · rename_i hpc
    rw [hpc] at hh
    exact ⟨by simp [hpc], outside_stepIteration hh h⟩
  · rename_i hpc
    exact absurd hpc (hno _ _)

end Step

/-! ## Runs -/

section Runs
variable {m m' : Machine} {i : OpId} {coreCount : Nat} {answer : Answer} {log : List (OpId × SweepEvent)}
  {x : Machine × List (OpId × SweepEvent)}

theorem sweepTrace_append {j : OpId} {e : Option SweepEvent} :
    sweepTrace j (log ++ (e.map fun e => (i, e)).toList) =
      if j = i then sweepTrace i log ++ e.toList else sweepTrace j log := by
  cases e with
  | none => simp [sweepTrace]; rintro rfl; rfl
  | some e =>
    by_cases hj : j = i
    · subst hj
      simp [sweepTrace]
    · simp [sweepTrace, hj, Ne.symm hj]

/-- What the log shows of the operations. -/
structure SweepLog (x : Machine × List (OpId × SweepEvent)) : Prop where
  passes : ∀ i, PassLog (x.1.ops i) (sweepTrace i x.2)
  honest : ∀ i, (x.1.ops i).Honest (sweepTrace i x.2)

theorem PassLog.eq_nil_of_idle {l : List SweepEvent} (h : PassLog .idle l) : l = [] := by
  cases h with
  | early => rfl
  | failed _ _ hf => cases hf

theorem Request.entry_early (request : Request) : request.entry.Early := by
  cases request <;> trivial

theorem Request.entry_honest {l : List SweepEvent} (request : Request) : request.entry.Honest l := by
  cases request with
  | cleanUp => exact ⟨nofun, nofun⟩
  | _ => trivial

theorem SweepLog.goto {e : Option SweepEvent} (h : SweepLog (m, log)) (ho : ∀ j, j ≠ i → m'.ops j = m.ops j)
    (hp : PassLog (m'.ops i) (sweepTrace i log ++ e.toList)) (hh : (m'.ops i).Honest (sweepTrace i log ++ e.toList)) :
    SweepLog (m', log ++ (e.map fun e => (i, e)).toList) := by
  refine ⟨fun j => ?_, fun j => ?_⟩ <;> simp only [sweepTrace_append] <;> split
  · rename_i hj
    subst hj
    exact hp
  · rename_i hj
    rw [ho j hj]
    exact h.passes j
  · rename_i hj
    subst hj
    exact hh
  · rename_i hj
    rw [ho j hj]
    exact h.honest j

theorem SweepLog.stepped (hr : m.registry.WellFormed) (h : SweepLog (m, log))
    (hs : step coreCount m (.step i answer) = some m') :
    SweepLog (m', log ++ (sweepEvent m (.step i answer)).toList) := by
  have hothers := (claimStep_step hs).others
  have hpass := h.passes i
  have hhonest := h.honest i
  by_cases hno : ∀ caller pc, m.ops i ≠ .cleanUp caller pc
  · obtain ⟨hret, hearly, hhonest'⟩ := outside_step (l := sweepTrace i log) hno hhonest hs
    have hempty : sweepTrace i log = [] := by
      generalize sweepTrace i log = l at hpass
      simp only at hpass
      generalize m.ops i = pc at hpass hno hret
      cases hpass with
      | early => rfl
      | completed => exact absurd rfl (hret _)
      | failed pc _ hf =>
        cases pc with
        | returned o => exact absurd rfl (hret o)
        | cleanUp caller pc => exact absurd rfl (hno caller pc)
        | _ => cases hf
      | _ => exact absurd rfl (hno _ _)
    have hevent : sweepEvent m (.step i answer) = (none : Option SweepEvent).map fun e => (i, e) := by
      simp only [sweepEvent, Option.map_none]
    rw [hevent]
    refine h.goto hothers ?_ (by simpa using hhonest')
    rw [hempty]
    exact .early _ hearly
  · obtain ⟨caller, pc, hpc⟩ : ∃ caller pc, m.ops i = .cleanUp caller pc := by
      simpa using hno
    have hstep : stepCleanUp m i caller pc answer = some m' := by
      simpa only [step, stepOp, hpc] using hs
    have hevent : sweepEvent m (.step i answer) = (pc.sweepEvent m.registry answer).map fun e => (i, e) := by
      simp only [sweepEvent, hpc]
    simp only [hpc] at hpass hhonest
    rw [hevent]
    exact h.goto hothers (hpass.stepped hr hstep) (honest_stepCleanUp hhonest hstep)

theorem sweepLog_reachable (h : (loggedSweeps coreCount).Reachable x) : SweepLog x := by
  refine h.invariant_with (J := fun x => x.1.registry.WellFormed)
    (fun x hx => wellFormed_reachable (System.reachable_of_logged hx)) (fun x hx => ?_) fun x a y hr _ hi _ hs => ?_
  · obtain ⟨m, log⟩ := x
    obtain ⟨⟨registry, -, hm⟩, hlog⟩ := hx
    cases hm
    cases hlog
    exact ⟨fun _ => .early _ trivial, fun _ => trivial⟩
  · obtain ⟨m, log⟩ := x
    obtain ⟨m', log'⟩ := y
    obtain ⟨hstep, rfl⟩ := System.logged_step.1 hs
    cases a with
    | call i request =>
      obtain ⟨hidle, hm'⟩ := step_call (n := coreCount) hstep
      simp only at hm'
      subst hm'
      have hempty : sweepTrace i log = [] := PassLog.eq_nil_of_idle (hidle ▸ hi.passes i)
      refine SweepLog.goto (i := i) (e := none) hi (fun j hj => by simp [Machine.goto, hj]) ?_ ?_
      · rw [Machine.goto_ops, hempty]
        exact .early _ request.entry_early
      · rw [Machine.goto_ops]
        exact request.entry_honest
    | step i answer => exact hi.stepped hr hstep

/-! ## Completed passes -/

section Completed
variable {vs : List (ThreadRecord × Verdict)} {before : Registry} {r : CleanupResult} {record : ThreadRecord}

theorem mem_claimsOf {c : ClaimedCleanupRecord} :
    c ∈ claimsOf vs ↔ ∃ s, (s, .claimed) ∈ vs ∧ c = ⟨s.id, s.thread, false⟩ := by
  simp only [claimsOf, List.mem_map, List.mem_filter, decide_eq_true_eq]
  constructor
  · rintro ⟨⟨s, v⟩, ⟨hm, rfl⟩, rfl⟩
    exact ⟨s, hm, rfl⟩
  · rintro ⟨s, hm, rfl⟩
    exact ⟨(s, .claimed), ⟨hm, rfl⟩, rfl⟩

theorem claim_mem_asksOf {s : ThreadRecord} : .claim s true ∈ asksOf vs ↔ (s, .claimed) ∈ vs := by
  simp only [asksOf, List.mem_flatMap]
  constructor
  · rintro ⟨⟨record, v⟩, hm, he⟩
    cases v <;> simp [Verdict.asks] at he
    exact he ▸ hm
  · intro hm
    exact ⟨_, hm, by simp [Verdict.asks]⟩

/-- The log shows the answers that the pass acted on. -/
theorem claim_mem_completed {s : ThreadRecord} {gone : List ClaimedCleanupRecord} :
    .claim s true ∈ leaveLog vs before gone ++ [.completed r] ↔ (s, .claimed) ∈ vs := by
  rw [← claim_mem_asksOf]
  constructor
  · intro h
    rcases List.mem_append.1 h with h | h
    · rcases List.mem_append.1 h with h | h
      · rcases List.mem_cons.1 h with h | h
        · cases h
        · exact h
      · rcases List.mem_cons.1 h with h | h
        · cases h
        · exact (leaves_of_mem h).elim
    · cases List.mem_singleton.1 h
  · intro h
    exact List.mem_append_left _ (List.mem_append_left _ (List.mem_cons_of_mem _ h))

theorem doomed_iff {gone : List ClaimedCleanupRecord} :
    Doomed (leaveLog vs before gone ++ [.completed r]) (vs.map (·.1)) record ↔
      ∃ c ∈ claimsOf vs, record.key = c.key := by
  constructor
  · rintro ⟨s, -, hkey, -, hclaim⟩
    exact ⟨_, mem_claimsOf.2 ⟨s, claim_mem_completed.1 hclaim, rfl⟩, hkey.symm⟩
  · rintro ⟨c, hc, hkey⟩
    obtain ⟨s, hm, rfl⟩ := mem_claimsOf.1 hc
    refine ⟨s, List.mem_map.2 ⟨_, hm, rfl⟩, hkey.symm, ?_, claim_mem_completed.2 hm⟩
    refine List.mem_append_left _ (List.mem_append_left _ (List.mem_cons_of_mem _ ?_))
    exact List.mem_flatMap.2 ⟨_, hm, by simp [Verdict.asks]⟩

theorem filterMap_asksOf {β : Type} {f : SweepEvent → Option β} (hf : ∀ e, e.Asks → f e = none) :
    (asksOf vs).filterMap f = [] :=
  List.filterMap_eq_nil_iff.2 fun e he => hf e (asks_of_mem he)

theorem deletions_completed {gone : List ClaimedCleanupRecord} :
    deletions (leaveLog vs before gone ++ [.completed r]) = (gone.filter fun c => c.removed).map fun c => c.thread := by
  have hexits : ∀ cs : List ClaimedCleanupRecord,
      deletions (cs.flatMap fun c => [.threadRemoved c.id, .deleted c.thread]) = cs.map fun c => c.thread := by
    intro cs
    induction cs with
    | nil => rfl
    | cons c cs ih => simpa [deletions] using ih
  have hasks : (asksOf vs).filterMap (fun | .deleted t => some t | _ => none) = [] :=
    filterMap_asksOf fun e he => by cases e <;> first | rfl | cases he
  have hgone := hexits (gone.filter fun c => c.removed)
  simp only [deletions] at hgone ⊢
  simp [leaveLog, askLog, exitsOf, hasks, hgone]

theorem announcements_completed {gone : List ClaimedCleanupRecord} :
    announcements (leaveLog vs before gone ++ [.completed r]) = (gone.filter fun c => c.removed).map fun c => c.id := by
  have hexits : ∀ cs : List ClaimedCleanupRecord,
      announcements (cs.flatMap fun c => [.threadRemoved c.id, .deleted c.thread]) = cs.map fun c => c.id := by
    intro cs
    induction cs with
    | nil => rfl
    | cons c cs ih => simpa [announcements] using ih
  have hasks : (asksOf vs).filterMap (fun | .threadRemoved id => some id | _ => none) = [] :=
    filterMap_asksOf fun e he => by cases e <;> first | rfl | cases he
  have hgone := hexits (gone.filter fun c => c.removed)
  simp only [announcements] at hgone ⊢
  simp [leaveLog, askLog, exitsOf, hasks, hgone]

theorem claims_nodup (hn : ((vs.map (·.1)).map (·.thread)).Nodup) :
    ((claimsOf vs).map ClaimedCleanupRecord.key).Nodup := by
  have hsub : ((claimsOf vs).map fun c => c.thread).Sublist ((vs.map (·.1)).map (·.thread)) := by
    simp only [claimsOf, List.map_map, Function.comp_def]
    exact List.filter_sublist.map _
  refine List.Nodup.of_map Prod.snd ?_
  rw [List.map_map]
  exact hsub.nodup hn

/-- The marked claims are the doomed records. -/
theorem marked_perm (hn : ((vs.map (·.1)).map (·.thread)).Nodup) (hb : before.WellFormed) {l : List SweepEvent}
    (hl : ∀ record, Doomed l (vs.map (·.1)) record ↔ ∃ c ∈ claimsOf vs, record.key = c.key) :
    (((before.removeClaimed (claimsOf vs)).2.filter fun c => c.removed).map ClaimedCleanupRecord.key).Perm
      ((before.threads.filter fun record => Doomed l (vs.map (·.1)) record).map ThreadRecord.key) := by
  have hfresh : ∀ c ∈ claimsOf vs, c.removed = false := by
    intro c hc
    obtain ⟨s, -, rfl⟩ := mem_claimsOf.1 hc
    rfl
  have hkeys : (before.threads.map ThreadRecord.key).Nodup := by
    refine List.Nodup.of_map Prod.snd ?_
    rw [List.map_map]
    exact hb.pointers_nodup
  rw [Registry.removeClaimed_marks hb (claims_nodup hn) hfresh,
    List.perm_ext_iff_of_nodup ((claims_nodup hn).filter _) ((List.filter_sublist.map _).nodup hkeys)]
  intro key
  simp only [List.mem_filter, List.mem_map, decide_eq_true_eq, hl]
  constructor
  · rintro ⟨⟨c, hc, rfl⟩, record, hm, hkey⟩
    exact ⟨record, ⟨hm, c, hc, hkey⟩, hkey⟩
  · rintro ⟨record, ⟨hm, c, hc, hkey⟩, rfl⟩
    exact ⟨⟨c, hc, hkey.symm⟩, record, hm, rfl⟩

theorem countP_claims {gone : List ClaimedCleanupRecord} :
    (leaveLog vs before gone ++ [SweepEvent.completed r]).countP SweepEvent.claims = (claimsOf vs).length := by
  have hasks : (asksOf vs).countP SweepEvent.claims =
      (claimsOf vs).length := by
    simp only [claimsOf, List.length_map, asksOf]
    induction vs with
    | nil => rfl
    | cons v vs ih =>
      obtain ⟨record, v⟩ := v
      rw [List.flatMap_cons, List.countP_append, ih]
      cases v <;> simp [Verdict.asks, SweepEvent.claims, Nat.add_comm]
  have hexits : (exitsOf gone).countP SweepEvent.claims = 0 := by
    refine List.countP_eq_zero.2 fun e he => ?_
    have := leaves_of_mem he
    cases e <;> first | exact Bool.false_ne_true | cases this
  simp [leaveLog, askLog, List.countP_append, hasks, hexits, SweepEvent.claims]

/-- A pass whose log is that of a completed pass. -/
theorem exactPass (hn : ((vs.map (·.1)).map (·.thread)).Nodup) (hb : before.WellFormed) :
    ExactPass (leaveLog vs before (before.removeClaimed (claimsOf vs)).2 ++
        [.completed (leaveResult vs before (before.removeClaimed (claimsOf vs)).2)])
      (vs.map (·.1)) before (before.removeClaimed (claimsOf vs)).1
      (leaveResult vs before (before.removeClaimed (claimsOf vs)).2) := by
  have hdoomed : ∀ record, Doomed (leaveLog vs before (before.removeClaimed (claimsOf vs)).2 ++
      [.completed (leaveResult vs before (before.removeClaimed (claimsOf vs)).2)]) (vs.map (·.1)) record ↔
      ∃ c ∈ claimsOf vs, record.key = c.key := fun _ => doomed_iff
  have hperm := marked_perm hn hb hdoomed
  have hdeleted := hperm.map Prod.snd
  have hannounced := hperm.map Prod.fst
  simp only [List.map_map] at hdeleted hannounced
  have hlength := hdeleted.length_eq
  simp only [List.length_map] at hlength
  have hmarked : (doomed (before.removeClaimed (claimsOf vs)).2).length ≤ (claimsOf vs).length := by
    have hthreads := congrArg List.length (Registry.removeClaimed_threads (r := before) (claimsOf vs))
    simp only [List.length_map] at hthreads
    simp only [doomed, List.length_map]
    exact (List.length_filter_le _ _).trans hthreads.le
  refine ⟨⟨asksOf vs, exitsOf (before.removeClaimed (claimsOf vs)).2, by simp [leaveLog, askLog],
    fun e => asks_of_mem, fun e => leaves_of_mem⟩, ?_, ?_, ?_, ?_, rfl, ?_, hmarked, countP_claims.symm, ?_, ?_, rfl⟩
  · rw [Registry.removeClaimed_filter hb]
    congr 1
    refine List.filter_congr fun record _ => ?_
    simp [hdoomed]
  · rw [deletions_completed]
    exact hdeleted
  · rw [deletions_completed]
    refine (List.Perm.nodup_iff hdeleted).2 ?_
    exact (List.filter_sublist.map _).nodup hb.pointers_nodup
  · rw [announcements_completed]
    exact hannounced
  · simpa [leaveResult, doomed] using hlength
  · simp only [leaveResult, askResult, claimsOf, List.length_map, List.append_nil]
    exact List.length_filter_le _ _
  · simp [leaveResult, askResult]

end Completed

/-! ## All passes -/

/-- The IDs that were announced with `ThreadRemoved`. -/
def removedIDs (m : Machine) : List UInt8 :=
  m.notified.filterMap fun
    | .threadRemoved id => some id
    | _ => none

/-- What a step of a pass does, by its event: the registry changes in the
removal only, and each deletion and `ThreadRemoved` is in the log. -/
structure SweepStep (m m' : Machine) (e : Option SweepEvent) : Prop where
  snapshot : ∀ records, e = some (.snapshot records) → records = m.registry.threads
  registry : (m'.registry = m.registry ∧ ∀ before after, e ≠ some (.removal before after)) ∨
    e = some (.removal m.registry m'.registry)
  deleted : m'.deleted = m.deleted ++ deletions e.toList
  announced : removedIDs m' = removedIDs m ++ announcements e.toList

/-- A step that only moves the pass on, with its notification. -/
theorem SweepStep.moved {m₁ : Machine} {pc : Pc} {e : Option SweepEvent} (hr : m₁.registry = m.registry)
    (hd : m₁.deleted = m.deleted) (hn : removedIDs m₁ = removedIDs m)
    (he : e = none ∨ (∃ record b, e = some (.state record b)) ∨ (∃ record b, e = some (.claim record b)) ∨
      ∃ r, e = some (.completed r)) : SweepStep m (m₁.goto i pc) e := by
  have hremoved : removedIDs (m₁.goto i pc) = removedIDs m := hn
  have hdeleted : (m₁.goto i pc).deleted = m.deleted := hd
  obtain rfl | ⟨record, b, rfl⟩ | ⟨record, b, rfl⟩ | ⟨r, rfl⟩ := he <;>
    exact ⟨nofun, .inl ⟨hr, nofun⟩, by simpa [deletions] using hdeleted, by simpa [announcements] using hremoved⟩

theorem removedIDs_notify {n : Notification} (h : ∀ id, n ≠ .threadRemoved id) :
    removedIDs (m.notify n) = removedIDs m := by
  cases n with
  | threadRemoved id => exact absurd rfl (h id)
  | _ => simp [removedIDs, Machine.notify]

theorem sweepStep {caller : Caller} {pc : PassPc} (hs : stepCleanUp m i caller pc answer = some m') :
    SweepStep m m' (pc.sweepEvent m.registry answer) := by
  unfold stepCleanUp at hs
  split at hs
  · split at hs
    · dsimp only at hs
      split at hs <;> cases hs <;> exact .moved rfl rfl rfl (.inl rfl)
    · cases hs
  · cases hs; exact .moved rfl rfl rfl (.inl rfl)
  · cases hs; exact .moved rfl rfl (removedIDs_notify (by rintro _ ⟨⟩)) (.inl rfl)
  · cases hs; exact .moved rfl rfl (removedIDs_notify (by rintro _ ⟨⟩)) (.inl rfl)
  · cases hs
    exact ⟨fun _ he => by cases he; rfl, .inl ⟨rfl, (by rintro _ _ ⟨⟩)⟩, (List.append_nil _).symm,
      (List.append_nil _).symm⟩
  · cases hs; exact .moved rfl rfl rfl (.inl rfl)
  · cases hs; exact .moved rfl rfl (removedIDs_notify (by rintro _ ⟨⟩)) (.inl rfl)
  · cases hs; exact .moved rfl rfl (removedIDs_notify (by rintro _ ⟨⟩)) (.inl rfl)
  · cases hs; exact .moved rfl rfl rfl (.inl rfl)
  · -- getThreadState
    rename_i _ record rest claimed r
    split at hs
    · rename_i hnull
      cases hs
      exact .moved rfl rfl rfl (.inl (by cases answer <;> simp [PassPc.sweepEvent, hnull]))
    · rename_i hnull
      split at hs
      · rename_i terminated
        cases hs
        exact .moved rfl rfl rfl (.inr (.inl ⟨record, terminated, if_neg hnull⟩))
      · cases hs; exact .moved rfl rfl rfl (.inl rfl)
      · cases hs
  · -- tryClaim
    rename_i record rest claimed r won
    split at hs <;> cases hs <;> exact .moved rfl rfl rfl (.inr (.inr (.inl ⟨record, won, rfl⟩)))
  · cases hs; exact .moved rfl rfl rfl (.inl rfl)
  · cases hs; exact .moved rfl rfl (removedIDs_notify (by rintro _ ⟨⟩)) (.inl rfl)
  · cases hs; exact .moved rfl rfl (removedIDs_notify (by rintro _ ⟨⟩)) (.inl rfl)
  · cases hs
    exact ⟨(by rintro _ ⟨⟩), .inr rfl, (List.append_nil _).symm, (List.append_nil _).symm⟩
  · cases hs; exact .moved rfl rfl rfl (.inl rfl)
  · cases hs; exact .moved rfl rfl rfl (.inl rfl)
  · -- notifyRemoved
    rename_i _ c rest r
    split at hs
    · rename_i hremoved
      have hevent : ∀ a, a = .returns ∨ a = .throws → (PassPc.notifyRemoved (c :: rest) r).sweepEvent m.registry a =
          some (.threadRemoved c.id) := by
        rintro a (rfl | rfl) <;> simp [PassPc.sweepEvent, hremoved]
      split at hs <;> cases hs
      · rw [hevent _ (.inl rfl)]
        exact ⟨(by rintro _ ⟨⟩), .inl ⟨rfl, (by rintro _ _ ⟨⟩)⟩, (List.append_nil _).symm, by
          simp [removedIDs, Machine.notify, Machine.goto, announcements]⟩
      · rw [hevent _ (.inr rfl)]
        exact ⟨(by rintro _ ⟨⟩), .inl ⟨rfl, (by rintro _ _ ⟨⟩)⟩, (List.append_nil _).symm, by
          simp [removedIDs, Machine.notify, Machine.goto, announcements]⟩
    · rename_i hremoved
      cases hs
      exact .moved rfl rfl rfl (.inl (by cases answer <;> simp [PassPc.sweepEvent, hremoved]))
  · cases hs
    exact ⟨(by rintro _ ⟨⟩), .inl ⟨rfl, (by rintro _ _ ⟨⟩)⟩, rfl, (List.append_nil _).symm⟩
  · cases hs; exact .moved rfl rfl (removedIDs_notify (by rintro _ ⟨⟩)) (.inr (.inr (.inr ⟨_, rfl⟩)))
  · cases hs; exact .moved rfl rfl (removedIDs_notify (by rintro _ ⟨⟩)) (.inl rfl)
  · cases hs; exact .moved rfl rfl rfl (.inl rfl)
  · cases hs; exact .moved rfl rfl (removedIDs_notify (by rintro _ ⟨⟩)) (.inl rfl)
  · cases hs; exact .moved rfl rfl (removedIDs_notify (by rintro _ ⟨⟩)) (.inl rfl)
  · cases hs

/-- A pass that completed removed the records of its snapshot that were
`Terminated`, claimed and still registered, and no others; it announced and
deleted each of them once. -/
theorem completed_pass_exact (coreCount : Nat) (x : Machine × List (OpId × SweepEvent))
    (h : (loggedSweeps coreCount).Reachable x) (i : OpId) :
    (∀ caller pc answer y, x.1.ops i = .cleanUp caller pc →
      (loggedSweeps coreCount).step x (.step i answer) = some y →
      ∃ e : Option SweepEvent, y.2 = x.2 ++ (e.map fun e => (i, e)).toList ∧ SweepStep x.1 y.1 e) ∧
    (∀ r, x.1.ops i = .returned (.cleanup r) → r.wasDeferred = true ∨ .completed r ∈ sweepTrace i x.2) ∧
    ∀ r, .completed r ∈ sweepTrace i x.2 →
      ∃ snapshot before after, ExactPass (sweepTrace i x.2) snapshot before after r := by
  have hlog := sweepLog_reachable h
  refine ⟨fun caller pc answer y hpc hs => ?_, fun r hret => ?_, fun r hr => ?_⟩
  · obtain ⟨hstep, hy⟩ := System.logged_step.1 hs
    have hstep : stepCleanUp x.1 i caller pc answer = some y.1 := by
      simpa only [system, step, stepOp, hpc] using hstep
    refine ⟨pc.sweepEvent x.1.registry answer, ?_, sweepStep hstep⟩
    simpa only [sweepEvent, hpc] using hy
  · have hhonest := hlog.honest i
    rwa [hret] at hhonest
  · have hpass := hlog.passes i
    generalize sweepTrace i x.2 = l at hpass hr
    generalize x.1.ops i = pc at hpass
    cases hpass with
    | completed _ vs before hn hb =>
      rcases List.mem_append.1 hr with hr | hr
      · exact absurd hr (leaveLog_running r)
      · cases List.mem_singleton.1 hr
        exact ⟨_, before, _, exactPass hn hb⟩
    | failed _ _ _ hno => exact absurd hr (hno r)
    | early => cases hr
    | started | asking | claimed | removing => exact absurd hr (askLog_running r)
    | removed | leaving | completing => exact absurd hr (leaveLog_running r)
    | claiming =>
      rcases List.mem_append.1 hr with hr | hr
      · exact absurd hr (askLog_running r)
      · cases List.mem_singleton.1 hr
    | deleting =>
      rcases List.mem_append.1 hr with hr | hr
      · exact absurd hr (leaveLog_running r)
      · cases List.mem_singleton.1 hr

end Runs

def threeThreads : Registry := ⟨[⟨1, 1, 0⟩, ⟨2, 2, 0⟩, ⟨3, 3, 0⟩], 0⟩

theorem threeThreads_wellFormed : threeThreads.WellFormed := ⟨by decide, by decide⟩

/-- A pass claims threads 1 and 2 of three. Before it removes them, thread 2 is
removed and thread 4 is added; while thread 1 is deleted, its destructor calls
`RemoveThread`. -/
def crossedPass : List Action :=
  [.call 0 .cleanUp, .step 0 .returns, .step 0 .returns, .step 0 .returns, .step 0 (.returnsBool true),
    .step 0 (.returnsBool true), .step 0 .returns, .step 0 (.returnsBool true), .step 0 (.returnsBool true),
    .step 0 .returns, .step 0 (.returnsBool false), .call 1 (.removeThread (.thread 2)), .step 1 .returns,
    .call 2 (.addThread 4 true), .step 2 .returns, .step 2 .returns, .step 0 .returns, .step 0 .returns,
    .step 0 .returns, .step 0 .returns, .call 3 (.removeThread (.thread 1)), .step 3 .returns, .step 0 .returns,
    .step 0 .returns, .step 0 .returns, .step 0 .returns]

theorem crossedPass_exact : ∃ x snapshot before after r, (loggedSweeps 1).Reachable x ∧
    ExactPass (sweepTrace 0 x.2) snapshot before after r ∧ deletions (sweepTrace 0 x.2) = [1] ∧
    x.1.registry.threads.map (·.thread) = [3, 4] ∧ r.threadsClaimed = 2 := by
  let result : CleanupResult := { threadsExamined := 3, threadsClaimed := 2, threadsRemoved := 1, threadsDeleted := 1
                                  threadCountBefore := 3, threadCountAfter := 2 }
  have hrun : ((loggedSweeps 1).replay (.start threeThreads, []) crossedPass).map (fun x =>
      (decide (.completed result ∈ sweepTrace 0 x.2), deletions (sweepTrace 0 x.2),
        x.1.registry.threads.map (·.thread))) = some (true, [1], [3, 4]) := by
    decide +kernel
  obtain ⟨x, hs, hp⟩ := Option.map_eq_some_iff.1 hrun
  have hr := System.reachable_of_replay (S := loggedSweeps 1) ⟨⟨threeThreads, threeThreads_wellFormed, rfl⟩, rfl⟩ hs
  have hcompleted : .completed result ∈ sweepTrace 0 x.2 := of_decide_eq_true (congrArg Prod.fst hp)
  obtain ⟨snapshot, before, after, hexact⟩ := (completed_pass_exact 1 x hr 0).2.2 result hcompleted
  exact ⟨x, snapshot, before, after, result, hr, hexact, congrArg (fun p => p.2.1) hp,
    congrArg (fun p => p.2.2) hp, rfl⟩

end ESPressio.Manager
