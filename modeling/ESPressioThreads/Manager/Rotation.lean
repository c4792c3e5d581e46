import ESPressioThreads.Manager.Registration
/-!
# Concurrent registration

The lookup and the insertion of `AddThread` are separate locked sections. A
log of insertions, removals, notifications and returns says what overlapping
calls for one pointer see, and in which order the cores are given out.
-/

namespace ESPressio.Manager

open Transition

/-- What a step shows of registration: `registered` is the notification, after
which the call returns its record unless the notification threw. -/
inductive Event
  | inserted (i : OpId) (record : ThreadRecord)
  | removed (ts : List ThreadPtr)
  | registered (i : OpId) (record : ThreadRecord) (threw : Bool)
  | returned (i : OpId) (t : ThreadPtr) (coreID : Nat) (id : UInt8)

/-- The event of an `AddThread` call. -/
def addEvent (n : Nat) (r : Registry) (i : OpId) (t : ThreadPtr) (assigned : Bool) (answer : Answer) :
    AddPc → Option Event
  | .lookUp =>
    if t = nullptr then none else (r.findThread t).map fun record => .returned i t record.coreID record.id
  | .insert requested =>
    match r.insert n t assigned requested with
    | .ok (_, record, true) => if answer = .throws then none else some (.inserted i record)
    | .ok (_, record, false) => some (.returned i t record.coreID record.id)
    | .error _ => none
  | .notifyRegistered record => some (.registered i record (answer = .throws))
  | .getThreadID | .notifyFailed _ => none

def event (n : Nat) (m : Machine) : Action → Option Event
  | .call _ _ => none
  | .step i answer =>
    match (m.ops i).adds with
    | some (t, assigned, pc) => addEvent n m.registry i t assigned answer pc
    | none => ((m.ops i).removes m.registry).map .removed

/-- The manager with its log. -/
def loggedManager (n : Nat) : System (Machine × List Event) Action := (fresh n).logged (event n)

variable {m m' : Machine} {i j : OpId} {n : Nat} {answer : Answer}

/-! ## The log -/

/-- The records inserted over a run, in order. -/
def insertions (log : List Event) : List ThreadRecord :=
  log.filterMap fun
    | .inserted _ record => some record
    | _ => none

/-- The operation of an insertion or of its notification. -/
def Event.op : Event → Option OpId
  | .inserted i _ | .registered i _ _ => some i
  | .removed _ | .returned _ _ _ _ => none

/-- What operation `i` inserted and notified. -/
def registrations (i : OpId) (log : List Event) : List Event := log.filter fun e => e.op = some i

theorem insertions_append (l l' : List Event) : insertions (l ++ l') = insertions l ++ insertions l' :=
  List.filterMap_append

theorem registrations_append (i : OpId) (l l' : List Event) :
    registrations i (l ++ l') = registrations i l ++ registrations i l' :=
  List.filter_append ..

/-! ## One step -/

/-- A call about to notify the observers of its insertion. -/
def Pc.notifying : Pc → Option ThreadRecord
  | .addThread _ _ (.notifyRegistered record) => some record
  | _ => none

/-- A call past its notification, or one that returned. -/
def Pc.ended : Pc → Bool
  | .addThread _ _ (.notifyFailed _) | .returned _ => true
  | _ => false

/-- A step with its event. -/
inductive LogStep (n : Nat) (m : Machine) (i : OpId) (m' : Machine) : Option Event → Prop
  | inserted (t : ThreadPtr) (assigned : Bool) (requested : UInt8) (record : ThreadRecord) :
      m.ops i = .addThread t assigned (.insert requested) → record.thread = t → t ∉ m.registry.pointers →
      record.coreID = m.registry.nextCoreID % n → m'.registry.threads = m.registry.threads ++ [record] →
      m'.registry.nextCoreID = (m.registry.nextCoreID % n + 1) % n →
      m'.ops = Function.update m.ops i (.addThread t assigned (.notifyRegistered record)) →
      LogStep n m i m' (some (.inserted i record))
  | found (t : ThreadPtr) (assigned : Bool) (pc : AddPc) (record : ThreadRecord) :
      m.ops i = .addThread t assigned pc → (m.ops i).notifying = none → (m.ops i).ended = false →
      m.registry.findThread t = some record → m'.registry = m.registry →
      m'.ops = Function.update m.ops i (.returned (.core record.coreID record.id)) →
      LogStep n m i m' (some (.returned i t record.coreID record.id))
  | registered (t : ThreadPtr) (assigned : Bool) (record : ThreadRecord) (pc : Pc) (threw : Bool) :
      m.ops i = .addThread t assigned (.notifyRegistered record) → m'.registry = m.registry →
      pc = (if threw then .addThread t assigned (.notifyFailed .failed)
        else .returned (.core record.coreID record.id)) →
      m'.ops = Function.update m.ops i pc → LogStep n m i m' (some (.registered i record threw))
  | removed (ts : List ThreadPtr) (pc : Pc) : (m.ops i).notifying = none → (m.ops i).ended = false →
      pc.notifying = none →
      m'.registry.threads.Sublist m.registry.threads → m'.registry.nextCoreID = m.registry.nextCoreID →
      (∀ record ∈ m.registry.threads, record ∈ m'.registry.threads ∨ record.thread ∈ ts) →
      m'.ops = Function.update m.ops i pc → LogStep n m i m' (some (.removed ts))
  | silent (pc : Pc) : (m.ops i).notifying = none → pc.notifying = none →
      ((m.ops i).ended = true → pc.ended = true ∧ ∀ outcome, m.ops i ≠ .returned outcome) → m'.registry = m.registry →
      m'.ops = Function.update m.ops i pc → LogStep n m i m' none

theorem Registry.mem_removeOne {r : Registry} {c : ClaimedCleanupRecord} {record : ThreadRecord}
    (h : record ∈ r.threads) :
    record ∈ (r.removeOne c).1.threads ∨ ((r.removeOne c).2.removed = true ∧ record.thread = c.thread) := by
  unfold removeOne
  split
  · by_cases hm : matching c record = true
    · right
      simp only [matching, Bool.and_eq_true, decide_eq_true_eq] at hm
      exact ⟨rfl, hm.2⟩
    · left
      exact (List.mem_eraseP_of_neg hm).2 h
  · exact .inl h

/-- A record stays, or the pass marks its thread as removed. -/
theorem Registry.mem_removeClaimed {r : Registry} {cs : List ClaimedCleanupRecord} {record : ThreadRecord}
    (h : record ∈ r.threads) :
    record ∈ (r.removeClaimed cs).1.threads ∨ record.thread ∈ doomed (r.removeClaimed cs).2 := by
  induction cs generalizing r with
  | nil => exact .inl h
  | cons c cs ih =>
    have hcons : ∀ t, t ∈ doomed ((r.removeOne c).1.removeClaimed cs).2 → t ∈ doomed (r.removeClaimed (c :: cs)).2 := by
      intro t ht
      simp only [removeClaimed, doomed, List.filter_cons]
      split
      · exact List.mem_cons_of_mem _ ht
      · exact ht
    rcases mem_removeOne (c := c) h with hm | ⟨hremoved, ht⟩
    · rcases ih hm with hm | hd
      · exact .inl hm
      · exact .inr (hcons _ hd)
    · right
      simp only [removeClaimed, doomed, List.filter_cons, hremoved, if_true, List.map_cons, removeOne_thread, ht]
      exact List.mem_cons_self

theorem Pc.notifying_of_adds {pc : Pc} (h : pc.adds = none) : pc.notifying = none := by
  cases pc with
  | addThread => cases h
  | _ => rfl

theorem event_of_adds {t : ThreadPtr} {assigned : Bool} {pc : AddPc} (h : m.ops i = .addThread t assigned pc) :
    event n m (.step i answer) = addEvent n m.registry i t assigned answer pc := by
  simp [event, h, Pc.adds]

theorem event_of_removes (h : (m.ops i).adds = none) :
    event n m (.step i answer) = ((m.ops i).removes m.registry).map .removed := by
  simp [event, h]

theorem not_ended (h : step n m (.step i answer) = some m') (hadds : (m.ops i).adds = none) :
    (m.ops i).ended = false := by
  cases hpc : m.ops i with
  | returned => simp [step, stepOp, hpc] at h
  | addThread => rw [hpc] at hadds; cases hadds
  | _ => rfl

theorem logStep (hi : RegistryInv n m) (h : step n m (.step i answer) = some m') :
    LogStep n m i m' (event n m (.step i answer)) := by
  have hs := registryStep_step h
  have hended := not_ended h
  clear h
  cases hs with
  | refusedNull t assigned hpc ht =>
    rw [event_of_adds hpc, addEvent, if_pos ht]
    exact .silent _ (by rw [hpc]; rfl) rfl (by rw [hpc]; rintro ⟨⟩) rfl rfl
  | found t assigned pc record hpc hf hcase =>
    rcases hcase with rfl | ⟨requested, rfl⟩
    · have ht : t ≠ nullptr := by
        rintro rfl
        obtain ⟨hm, ht⟩ := Registry.findThread_mem hf
        exact hi.valid.wellFormed.not_null (List.mem_map.2 ⟨record, hm, ht⟩)
      rw [event_of_adds hpc, addEvent, if_neg ht, hf]
      exact .found t assigned _ record hpc (by rw [hpc]; rfl) (by rw [hpc]; rfl) hf rfl rfl
    · rw [event_of_adds hpc]
      simp only [addEvent, Registry.insert, hf]
      exact .found t assigned _ record hpc (by rw [hpc]; rfl) (by rw [hpc]; rfl) hf rfl rfl
  | lookedUp t assigned pc hpc ht hf he =>
    rw [event_of_adds hpc, addEvent, if_neg ht, hf]
    refine .silent _ (by rw [hpc]; rfl) ?_ (by rw [hpc]; rintro ⟨⟩) rfl rfl
    rw [he]
    cases assigned <;> rfl
  | gotThreadID t assigned id hpc =>
    rw [event_of_adds hpc]
    exact .silent _ (by rw [hpc]; rfl) rfl (by rw [hpc]; rintro ⟨⟩) rfl rfl
  | threw t assigned pc hpc hans hcase =>
    rcases hcase with rfl | ⟨requested, registry, record, rfl, hins⟩
    · rw [event_of_adds hpc]
      exact .silent _ (by rw [hpc]; rfl) rfl (by rw [hpc]; rintro ⟨⟩) rfl rfl
    · rw [event_of_adds hpc]
      simp only [addEvent, hins, hans, if_true]
      exact .silent _ (by rw [hpc]; rfl) rfl (by rw [hpc]; rintro ⟨⟩) rfl rfl
  | refused t assigned requested e hpc hins =>
    rw [event_of_adds hpc]
    simp only [addEvent, hins]
    exact .silent _ (by rw [hpc]; rfl) rfl (by rw [hpc]; rintro ⟨⟩) rfl rfl
  | inserted t assigned requested registry record hpc hans hins =>
    have hcase := Registry.insertion m.registry n t assigned requested
    rw [event_of_adds hpc]
    simp only [addEvent, hins, if_neg hans]
    rw [hins] at hcase
    cases hcase with
    | added id hf hid =>
      exact .inserted t assigned requested _ hpc rfl (Registry.findThread_eq_none.1 hf) rfl rfl rfl rfl
  | notified t assigned record hpc hans =>
    rw [event_of_adds hpc]
    simp only [addEvent, hans, decide_false]
    exact .registered t assigned record _ false hpc rfl rfl rfl
  | notificationThrew t assigned record hpc hans =>
    rw [event_of_adds hpc]
    simp only [addEvent, hans, decide_true]
    exact .registered t assigned record _ true hpc rfl rfl rfl
  | failed t assigned e hpc =>
    rw [event_of_adds hpc]
    exact .silent _ (by rw [hpc]; rfl) rfl (fun _ => ⟨rfl, by rw [hpc]; rintro _ ⟨⟩⟩) rfl rfl
  | removed key record hpc hf =>
    obtain ⟨hthreads, hnext⟩ := Registry.remove_of_find hf
    have hadds : (m.ops i).adds = none := by rw [hpc]; rfl
    rw [event_of_removes hadds, hpc]
    simp only [Pc.removes, hf, Option.map_some]
    refine .removed _ (.notifyRemoved record) (by rw [hpc]; rfl) (by rw [hpc]; rfl) rfl ?_ hnext
      (fun record' hm => ?_) rfl
    · show (m.registry.remove key).threads.Sublist m.registry.threads
      rw [hthreads]
      exact List.erase_sublist
    · by_cases he : record' = record
      · exact .inr (by simp [he])
      · left
        show record' ∈ (m.registry.remove key).threads
        rw [hthreads]
        exact (List.mem_erase_of_ne he).2 hm
  | passRemoved caller claimed r pc condemned hpc hadds =>
    obtain ⟨hsub, hnext⟩ := Registry.removeClaimed_sublist (r := m.registry) claimed
    have hadds' : (m.ops i).adds = none := by rw [hpc]; rfl
    rw [event_of_removes hadds', hpc]
    exact .removed _ pc (by rw [hpc]; rfl) (by rw [hpc]; rfl) (Pc.notifying_of_adds hadds) hsub hnext
      (fun record hm => Registry.mem_removeClaimed hm) rfl
  | other m₁ pc hadds hrem hadds' hr ho =>
    rw [event_of_removes hadds, hrem]
    refine .silent pc (Pc.notifying_of_adds hadds) (Pc.notifying_of_adds hadds')
      (fun he => absurd (hended hadds) (by rw [he]; rintro ⟨⟩)) hr ?_
    · show Function.update m₁.ops i pc = Function.update m.ops i pc
      rw [ho]

/-! ## Runs -/

/-- What call `i` inserted and notified: nothing, or one record, which it is
about to notify, or one record and its one notification. -/
inductive Emits (i : OpId) (pc : Pc) : List Event → Prop
  | nothing : pc.notifying = none → Emits i pc []
  | inserted (record : ThreadRecord) : pc.notifying = some record → Emits i pc [.inserted i record]
  | notified (record : ThreadRecord) (threw : Bool) : pc.ended = true →
      (threw = false → pc = .returned (.core record.coreID record.id)) →
      Emits i pc [.inserted i record, .registered i record threw]

/-- The registration contract, as the log of a run tells it. -/
structure RegistrationLog (n : Nat) (x : Machine × List Event) : Prop where
  /-- The k-th insertion is given core `k mod n`. -/
  rotation : ∀ k record, (insertions x.2)[k]? = some record → record.coreID = k % n
  /-- While a thread stays registered, nobody inserts it again, and every call
  for it that returns without inserting returns the ID and the core of its record. -/
  stays : ∀ l₁ i record l₂, x.2 = l₁ ++ .inserted i record :: l₂ → (∀ ts, .removed ts ∈ l₂ → record.thread ∉ ts) →
    x.1.registry.findThread record.thread = some record ∧
      (∀ j record', .inserted j record' ∈ l₂ → record'.thread ≠ record.thread) ∧
      ∀ j coreID id, .returned j record.thread coreID id ∈ l₂ → coreID = record.coreID ∧ id = record.id
  /-- What such a call returns was inserted by somebody before. -/
  origin : ∀ l₁ j t coreID id l₂, x.2 = l₁ ++ .returned j t coreID id :: l₂ → ∃ i, .inserted i ⟨id, t, coreID⟩ ∈ l₁
  /-- A call that inserts emits one `OnThreadRegistered`, and no other call any. -/
  emits : ∀ i, Emits i (x.1.ops i) (registrations i x.2)
  returns : ∀ j t coreID id, .returned j t coreID id ∈ x.2 → x.1.ops j = .returned (.core coreID id)

structure LogInv (n : Nat) (x : Machine × List Event) : Prop where
  registry : RegistryInv n x.1
  log : RegistrationLog n x
  next : x.1.registry.nextCoreID = (insertions x.2).length % n
  /-- Every record was inserted. -/
  inserted : ∀ record ∈ x.1.registry.threads, ∃ i, .inserted i record ∈ x.2

section Step
variable {log : List Event} {e : Option Event}

theorem LogInv.rotation_step (h : LogInv n (m, log)) (hs : LogStep n m i m' e) :
    (∀ k record, (insertions (log ++ e.toList))[k]? = some record → record.coreID = k % n) ∧
      m'.registry.nextCoreID = (insertions (log ++ e.toList)).length % n := by
  have hsame : insertions e.toList = [] → m'.registry.nextCoreID = m.registry.nextCoreID →
      (∀ k record, (insertions (log ++ e.toList))[k]? = some record → record.coreID = k % n) ∧
        m'.registry.nextCoreID = (insertions (log ++ e.toList)).length % n := by
    intro hnil hnext
    rw [insertions_append, hnil, List.append_nil, hnext]
    exact ⟨h.log.rotation, h.next⟩
  cases hs with
  | inserted t assigned requested record _ _ _ hcore _ hnext =>
    have hn : m.registry.nextCoreID = (insertions log).length % n := h.next
    have hlist : insertions (log ++ (some (Event.inserted i record)).toList) = insertions log ++ [record] :=
      insertions_append log [.inserted i record]
    rw [hlist]
    refine ⟨fun k record' hk => ?_, ?_⟩
    · rw [List.getElem?_append] at hk
      split at hk
      · exact h.log.rotation k record' hk
      · rename_i hlt
        rw [List.getElem?_singleton] at hk
        split at hk <;> cases hk
        obtain rfl : k = (insertions log).length := by omega
        rw [hcore, hn, Nat.mod_mod]
    · rw [hnext, hn, List.length_append, List.length_singleton, Nat.mod_mod, Nat.mod_add_mod]
  | found _ _ _ _ _ _ _ _ hr => exact hsame rfl (by rw [hr])
  | registered _ _ _ _ _ _ hr => exact hsame rfl (by rw [hr])
  | removed _ _ _ _ _ _ hnext => exact hsame rfl hnext
  | silent _ _ _ _ hr => exact hsame rfl (by rw [hr])

/-- A registered record stays, unless the step removes its thread. -/
theorem LogStep.mem_threads {record : ThreadRecord} (hs : LogStep n m i m' e) (hm : record ∈ m.registry.threads)
    (hrem : ∀ ts, e = some (.removed ts) → record.thread ∉ ts) : record ∈ m'.registry.threads := by
  cases hs with
  | inserted _ _ _ _ _ _ _ _ hthreads =>
    rw [hthreads]
    exact List.mem_append_left _ hm
  | found _ _ _ _ _ _ _ _ hr => rwa [hr]
  | registered _ _ _ _ _ _ hr => rwa [hr]
  | removed ts _ _ _ _ _ _ hkeep => exact (hkeep record hm).resolve_right (hrem ts rfl)
  | silent _ _ _ _ hr => rwa [hr]

theorem LogInv.stays_step (h : LogInv n (m, log)) (hinv : RegistryInv n m') (hs : LogStep n m i m' e) :
    ∀ l₁ j record l₂, log ++ e.toList = l₁ ++ .inserted j record :: l₂ →
      (∀ ts, .removed ts ∈ l₂ → record.thread ∉ ts) →
      m'.registry.findThread record.thread = some record ∧
        (∀ k record', .inserted k record' ∈ l₂ → record'.thread ≠ record.thread) ∧
        ∀ k coreID id, .returned k record.thread coreID id ∈ l₂ → coreID = record.coreID ∧ id = record.id := by
  intro l₁ j record l₂ hsplit hrem
  -- The insertion is in the old log, or is this step.
  rcases System.split_append hsplit with ⟨l₃, hlog, rfl⟩ | ⟨rfl, rfl, rfl⟩
  · obtain ⟨hf, honly, hsame⟩ := h.log.stays l₁ j record l₃ hlog
      fun ts hts => hrem ts (List.mem_append_left _ hts)
    have hm : record ∈ m.registry.threads := (Registry.findThread_mem hf).1
    have hm' := hs.mem_threads hm fun ts he => hrem ts (by rw [he]; simp)
    refine ⟨hinv.valid.wellFormed.findThread hm', fun k record' hk => ?_, fun k coreID id hk => ?_⟩
    · rcases List.mem_append.1 hk with hk | hk
      · exact honly k record' hk
      · cases hs with
        | inserted t _ _ _ _ ht hnew =>
          cases List.mem_singleton.1 hk
          rintro he
          exact hnew (ht ▸ he ▸ List.mem_map.2 ⟨record, hm, rfl⟩)
        | found | registered | removed => cases List.mem_singleton.1 hk
        | silent => cases hk
    · rcases List.mem_append.1 hk with hk | hk
      · exact hsame k coreID id hk
      · cases hs with
        -- A later call that finds the pointer returns the record that stays.
        | found t _ _ record' _ _ _ hfound =>
          cases List.mem_singleton.1 hk
          have hf : m.registry.findThread record.thread = some record := hf
          rw [hfound] at hf
          cases hf
          exact ⟨rfl, rfl⟩
        | inserted | registered | removed => cases List.mem_singleton.1 hk
        | silent => cases hk
  · cases hs with
    | inserted _ _ _ _ _ _ _ _ hthreads =>
      have hm : record ∈ m'.registry.threads := by rw [hthreads]; simp
      exact ⟨hinv.valid.wellFormed.findThread hm, nofun, nofun⟩

theorem LogInv.origin_step (h : LogInv n (m, log)) (hs : LogStep n m i m' e) :
    (∀ l₁ j t coreID id l₂, log ++ e.toList = l₁ ++ .returned j t coreID id :: l₂ →
      ∃ k, .inserted k ⟨id, t, coreID⟩ ∈ l₁) ∧
    ∀ record ∈ m'.registry.threads, ∃ k, .inserted k record ∈ log ++ e.toList := by
  constructor
  · intro l₁ j t coreID id l₂ hsplit
    rcases System.split_append hsplit with ⟨l₃, hlog, -⟩ | ⟨rfl, rfl, -⟩
    · exact h.log.origin l₁ j t coreID id l₃ hlog
    · cases hs with
      | found _ _ _ record _ _ _ hf =>
        obtain ⟨hm, rfl⟩ := Registry.findThread_mem hf
        exact h.inserted record hm
  · intro record hm
    have hold : record ∈ m.registry.threads → ∃ k, .inserted k record ∈ log ++ e.toList := fun hm => by
      obtain ⟨k, hk⟩ := h.inserted record hm
      exact ⟨k, List.mem_append_left _ hk⟩
    cases hs with
    | inserted _ _ _ _ _ _ _ _ hthreads =>
      rw [hthreads] at hm
      rcases List.mem_append.1 hm with hm | hm
      · exact hold hm
      · rw [List.mem_singleton.1 hm]
        exact ⟨i, by simp⟩
    | found _ _ _ _ _ _ _ _ hr => exact hold (hr ▸ hm)
    | registered _ _ _ _ _ _ hr => exact hold (hr ▸ hm)
    | removed _ _ _ _ _ hsub => exact hold (hsub.subset hm)
    | silent _ _ _ _ hr => exact hold (hr ▸ hm)

theorem LogStep.others (hs : LogStep n m i m' e) (hj : j ≠ i) :
    m'.ops j = m.ops j ∧ registrations j e.toList = [] := by
  have hop : ∀ pc, m'.ops = Function.update m.ops i pc → m'.ops j = m.ops j := fun pc ho => by
    rw [ho, Function.update_of_ne hj]
  have hne : ¬ (some i = some j) := fun h => hj (Option.some.inj h).symm
  cases hs with
  | inserted _ _ _ _ _ _ _ _ _ _ ho => exact ⟨hop _ ho, by simp [registrations, Event.op, hne]⟩
  | found _ _ _ _ _ _ _ _ _ ho => exact ⟨hop _ ho, rfl⟩
  | registered _ _ _ _ _ _ _ _ ho => exact ⟨hop _ ho, by simp [registrations, Event.op, hne]⟩
  | removed _ _ _ _ _ _ _ _ ho => exact ⟨hop _ ho, rfl⟩
  | silent _ _ _ _ _ ho => exact ⟨hop _ ho, rfl⟩

theorem LogStep.emits (hs : LogStep n m i m' e) (h : Emits i (m.ops i) (registrations i log)) :
    Emits i (m'.ops i) (registrations i (log ++ e.toList)) := by
  have hop : ∀ pc, m'.ops = Function.update m.ops i pc → m'.ops i = pc := fun pc ho => by
    rw [ho, Function.update_self]
  have hown : ∀ e : Event, e.op = some i → registrations i [e] = [e] := fun e he => by simp [registrations, he]
  rw [registrations_append]
  generalize registrations i log = l at h
  cases hs with
  | inserted t assigned requested record hpc _ _ _ _ _ ho =>
    rw [hop _ ho, Option.toList_some, hown _ rfl]
    rw [hpc] at h
    cases h with
    | nothing => exact .inserted record rfl
    | inserted _ hn => cases hn
    | notified _ _ he => cases he
  | found t assigned pc record _ hn he _ _ ho =>
    rw [hop _ ho]
    cases h with
    | nothing => exact .nothing rfl
    | inserted _ hn' => rw [hn] at hn'; cases hn'
    | notified _ _ he' => rw [he] at he'; cases he'
  | registered t assigned record pc threw hpc _ hnext ho =>
    rw [hop _ ho, Option.toList_some, hown _ rfl]
    rw [hpc] at h
    cases h with
    | nothing hn => cases hn
    | inserted _ hn =>
      cases hn
      refine .notified record threw ?_ fun hthrew => ?_
      · rw [hnext]; split <;> rfl
      · rw [hnext, hthrew]; rfl
    | notified _ _ he => cases he
  | removed ts pc hn he hpc _ _ _ ho =>
    rw [hop _ ho]
    cases h with
    | nothing => exact .nothing hpc
    | inserted _ hn' => rw [hn] at hn'; cases hn'
    | notified _ _ he' => rw [he] at he'; cases he'
  | silent pc hn hpc he _ ho =>
    rw [hop _ ho, show registrations i (none : Option Event).toList = [] from rfl, List.append_nil]
    cases h with
    | nothing => exact .nothing hpc
    | inserted _ hn' => rw [hn] at hn'; cases hn'
    | notified record threw he' hret =>
      obtain ⟨hended, hne⟩ := he he'
      exact .notified record threw hended fun hthrew => absurd (hret hthrew) (hne _)

theorem LogStep.not_returned (hs : LogStep n m i m' e) (outcome : Outcome) : m.ops i ≠ .returned outcome := by
  intro hpc
  cases hs with
  | inserted _ _ _ _ h | found _ _ _ _ h | registered _ _ _ _ _ h => rw [hpc] at h; cases h
  | removed _ _ _ h => rw [hpc] at h; cases h
  | silent _ _ _ h => exact (h (by rw [hpc]; rfl)).2 _ hpc

theorem LogInv.returns_step (h : LogInv n (m, log)) (hs : LogStep n m i m' e) :
    ∀ j t coreID id, .returned j t coreID id ∈ log ++ e.toList → m'.ops j = .returned (.core coreID id) := by
  intro j t coreID id hj
  rcases List.mem_append.1 hj with hj | hj
  · have hret := h.log.returns j t coreID id hj
    by_cases hji : j = i
    · subst hji
      exact absurd hret (hs.not_returned _)
    · rw [(hs.others hji).1]
      exact hret
  · cases hs with
    | found _ _ _ _ _ _ _ _ _ ho =>
      cases List.mem_singleton.1 hj
      rw [ho, Function.update_self]
    | inserted | registered | removed => cases List.mem_singleton.1 hj
    | silent => cases hj

theorem LogInv.stepped (h : LogInv n (m, log)) (hinv : RegistryInv n m') (hs : LogStep n m i m' e) :
    LogInv n (m', log ++ e.toList) := by
  obtain ⟨hrotation, hnext⟩ := h.rotation_step hs
  obtain ⟨horigin, hinserted⟩ := h.origin_step hs
  refine ⟨hinv, ⟨hrotation, h.stays_step hinv hs, horigin, fun j => ?_, h.returns_step hs⟩, hnext, hinserted⟩
  by_cases hj : j = i
  · subst hj
    exact hs.emits (h.log.emits j)
  · obtain ⟨hop, hnil⟩ := hs.others hj
    have : Emits j (m.ops j) (registrations j log) := h.log.emits j
    rwa [registrations_append, hnil, List.append_nil, hop]

end Step

theorem LogInv.called {log : List Event} {request : Request} (h : LogInv n (m, log)) (hinv : RegistryInv n m')
    (hs : step n m (.call i request) = some m') : LogInv n (m', log) := by
  obtain ⟨hidle, rfl⟩ := step_call hs
  have hother : ∀ j, j ≠ i → (m.goto i request.entry).ops j = m.ops j := fun j hj => by
    simp [Machine.goto, hj]
  refine ⟨hinv, ⟨h.log.rotation, h.log.stays, h.log.origin, fun j => ?_, fun j t coreID id hj => ?_⟩, h.next,
    h.inserted⟩
  · have hj : Emits j (m.ops j) (registrations j log) := h.log.emits j
    by_cases hji : j = i
    · subst hji
      rw [hidle] at hj
      rw [Machine.goto_ops]
      show Emits j request.entry (registrations j log)
      generalize registrations j log = l at hj
      cases hj with
      | nothing => exact .nothing (by cases request <;> rfl)
      | inserted _ hn => cases hn
      | notified _ _ he => cases he
    · rwa [hother j hji]
  · have hret := h.log.returns j t coreID id hj
    rw [hother j ?_]
    · exact hret
    · rintro rfl
      rw [show (m, log).1.ops j = .idle from hidle] at hret
      cases hret

/-- Registration is idempotent and fair over every run. -/
theorem registration_log (n : Nat) (hn : 0 < n) (x : Machine × List Event) (h : (loggedManager n).Reachable x) :
    RegistrationLog n x := by
  refine (h.invariant (I := LogInv n) (fun x hx => ?_) fun x a y hi _ hs => ?_).log
  · obtain ⟨m, log⟩ := x
    obtain ⟨rfl, rfl⟩ := hx
    refine ⟨⟨Registry.valid_empty hn, fun _ => trivial⟩, ⟨nofun, fun l₁ _ _ l₂ h => ?_, fun l₁ _ _ _ _ l₂ h => ?_,
      fun i => .nothing rfl, nofun⟩, (Nat.zero_mod n).symm, nofun⟩
    · exact absurd h (by simp)
    · exact absurd h (by simp)
  · obtain ⟨m, log⟩ := x
    obtain ⟨m', log'⟩ := y
    obtain ⟨hstep, rfl⟩ := Transition.System.logged_step.1 hs
    have hinv := hi.registry.step hstep
    cases a with
    | call i request =>
      have hnone : log ++ (event n m (.call i request)).toList = log := List.append_nil log
      simp only [hnone]
      exact hi.called hinv hstep
    | step i answer => exact hi.stepped hinv (logStep hi.registry hstep)

/-- Two calls for one thread that both found nothing: the first one inserts. -/
def overlapping : List Action :=
  [.call 0 (.addThread 10 true), .call 1 (.addThread 10 true)] ++
    [0, 1, 0, 1, 0].map fun i => .step i .returns

theorem overlapping_log : ∃ x, (loggedManager 2).Reachable x ∧
    (x.1.ops 0, x.1.ops 1, (insertions x.2).length) = (.returned (.core 0 1), .returned (.core 0 1), 1) ∧
    RegistrationLog 2 x := by
  have hrun : ((loggedManager 2).replay (.start .empty, []) overlapping).map
      (fun x => (x.1.ops 0, x.1.ops 1, (insertions x.2).length)) =
      some (.returned (.core 0 1), .returned (.core 0 1), 1) := by
    decide +kernel
  obtain ⟨x, hs, hp⟩ := Option.map_eq_some_iff.1 hrun
  have hinit : (loggedManager 2).init (.start .empty, []) := ⟨rfl, rfl⟩
  have hr := Transition.System.reachable_of_replay hinit hs
  exact ⟨x, hr, hp, registration_log 2 (by decide) x hr⟩

end ESPressio.Manager
