import Mathlib.Data.Finset.Card
import ESPressioThreads.Manager.Machine
/-!
# The registry through registrations and removals

Registered records have pairwise distinct IDs and pairwise distinct pointers,
and a core of the processor. An assigned ID is the least one of `1, …, 255`
that is free, or the reserved 0 when only that is left.
-/

namespace ESPressio.Manager

open Transition

namespace Registry

variable {r r' : Registry} {t : ThreadPtr} {id : UInt8} {n : Nat} {record : ThreadRecord}

/-! ## Identifiers -/

theorem idInUse_iff : r.idInUse id = true ↔ ∃ record ∈ r.threads, record.id = id := by
  simp [idInUse]

/-- The IDs of `AddThread`'s search, in its order. -/
def candidates : List UInt8 := (List.range' 1 255).map UInt8.ofNat

theorem toNat_ofNat_of_mem {k : Nat} (h : k ∈ List.range' 1 255) : (UInt8.ofNat k).toNat = k := by
  rw [List.mem_range'_1] at h
  exact UInt8.toNat_ofNat_of_lt' (by simp only [UInt8.size]; omega)

theorem mem_candidates : id ∈ candidates ↔ id ≠ 0 := by
  rw [candidates, List.mem_map]
  constructor
  · rintro ⟨k, hk, rfl⟩ h0
    have := toNat_ofNat_of_mem hk
    rw [h0] at this
    rw [List.mem_range'_1] at hk
    simp at this
    omega
  · intro h
    have hlt := id.toNat_lt
    have hpos : id.toNat ≠ 0 := fun h0 => h (UInt8.toNat_inj.1 (by simpa using h0))
    exact ⟨id.toNat, List.mem_range'_1.2 (by omega), UInt8.ofNat_toNat⟩

theorem candidates_sorted : candidates.Pairwise (· < ·) := by
  rw [candidates, List.pairwise_map]
  refine (List.pairwise_lt_range' (s := 1) (n := 255)).imp_of_mem fun {a b} ha hb h => ?_
  rw [UInt8.lt_iff_toNat_lt, toNat_ofNat_of_mem ha, toNat_ofNat_of_mem hb]
  exact h

/-- `id` is the ID a new record is assigned: the least free one, and 0 last. -/
structure LeastFree (r : Registry) (id : UInt8) : Prop where
  free : r.idInUse id = false
  below : id ≠ 0 → ∀ c, c ≠ 0 → c < id → r.idInUse c = true
  reserved : id = 0 → ∀ c, c ≠ 0 → r.idInUse c = true

theorem find_candidates (h : (candidates.find? fun id => !r.idInUse id) = some id) :
    id ≠ 0 ∧ r.idInUse id = false ∧ ∀ c, c ≠ 0 → c < id → r.idInUse c = true := by
  obtain ⟨hfree, as, bs, hl, has⟩ := List.find?_eq_some_iff_append.1 h
  have hsorted := candidates_sorted
  rw [hl] at hsorted
  refine ⟨mem_candidates.1 (by rw [hl]; simp), by simpa using hfree, fun c hc hlt => ?_⟩
  have hmem : c ∈ as ++ id :: bs := by rw [← hl]; exact mem_candidates.2 hc
  rcases List.mem_append.1 hmem with ha | hb
  · simpa using has c ha
  · have hle : id ≤ c := by
      rcases List.mem_cons.1 hb with rfl | hb
      · exact UInt8.le_refl _
      · exact UInt8.le_of_lt ((List.pairwise_cons.1 (List.pairwise_append.1 hsorted).2.1).1 c hb)
    exact absurd hlt (UInt8.not_lt.2 hle)

theorem leastFree_of_some (h : r.leastFreeID = some id) : r.LeastFree id := by
  unfold leastFreeID at h
  rcases Option.or_eq_some_iff.1 h with hf | ⟨hnone, h0⟩
  · obtain ⟨hne, hfree, hbelow⟩ := find_candidates hf
    exact ⟨hfree, fun _ => hbelow, fun h => absurd h hne⟩
  · split at h0 <;> cases h0
    rename_i hzero
    refine ⟨Bool.eq_false_iff.2 hzero, fun h => absurd rfl h, fun _ c hc => ?_⟩
    have := List.find?_eq_none.1 hnone c (mem_candidates.2 hc)
    simpa using this

theorem leastFreeID_eq_none : r.leastFreeID = none ↔ ∀ id, r.idInUse id = true := by
  unfold leastFreeID
  rw [Option.or_eq_none_iff]
  constructor
  · rintro ⟨hnone, h0⟩ id
    by_cases hid : id = 0
    · subst hid
      by_contra hne
      simp [hne] at h0
    · have := List.find?_eq_none.1 hnone id (mem_candidates.2 hid)
      simpa using this
  · intro h
    exact ⟨List.find?_eq_none.2 fun id _ => by simp [h id], by simp [h 0]⟩

/-! ## Valid registries -/

/-- The representation invariant, on `n` processors. -/
structure Valid (n : Nat) (r : Registry) : Prop where
  ids : (r.threads.map (·.id)).Nodup
  wellFormed : r.WellFormed
  cores : ∀ record ∈ r.threads, record.coreID < n
  next : r.nextCoreID < n

/-- The registry of a manager before any call. -/
def empty : Registry := ⟨[], 0⟩

theorem valid_empty (hn : 0 < n) : empty.Valid n where
  ids := List.nodup_nil
  wellFormed := ⟨List.nodup_nil, List.not_mem_nil⟩
  cores _ h := absurd h List.not_mem_nil
  next := hn

/-- 256 threads at most. -/
theorem Valid.length_le (h : r.Valid n) : r.threads.length ≤ 256 := by
  have hnd : (r.threads.map fun record => record.id.toNat).Nodup := by
    have := h.ids.map fun a b => UInt8.toNat_inj.1
    rwa [List.map_map] at this
  have hsub : (r.threads.map fun record => record.id.toNat).toFinset ⊆ Finset.range 256 := by
    intro k hk
    simp only [List.mem_toFinset, List.mem_map] at hk
    obtain ⟨record, -, rfl⟩ := hk
    exact Finset.mem_range.2 record.id.toNat_lt
  have := Finset.card_le_card hsub
  rwa [List.toFinset_card_of_nodup hnd, List.length_map, Finset.card_range] at this

theorem Valid.sublist (h : r.Valid n) (hs : r'.threads.Sublist r.threads) (hn : r'.nextCoreID = r.nextCoreID) :
    r'.Valid n where
  ids := (hs.map _).nodup h.ids
  wellFormed := h.wellFormed.sublist (hs.map _)
  cores record hm := h.cores record (hs.subset hm)
  next := hn ▸ h.next

theorem findThread_eq_none : r.findThread t = none ↔ t ∉ r.pointers := by
  simp only [findThread, pointers, List.find?_eq_none, List.mem_map, decide_eq_true_eq]
  constructor
  · rintro h ⟨record, hm, ht⟩
    exact h record hm ht
  · exact fun h record hm ht => h ⟨record, hm, ht⟩

theorem findThread_mem (h : r.findThread t = some record) : record ∈ r.threads ∧ record.thread = t :=
  ⟨List.mem_of_find?_eq_some h, by simpa using List.find?_some h⟩

/-- The record of a pointer. -/
theorem WellFormed.findThread (h : r.WellFormed) (hm : record ∈ r.threads) :
    r.findThread record.thread = some record := by
  cases hf : r.findThread record.thread with
  | none => exact absurd (List.mem_map.2 ⟨record, hm, rfl⟩) (findThread_eq_none.1 hf)
  | some record' =>
    obtain ⟨hm', ht⟩ := findThread_mem hf
    rw [List.inj_on_of_nodup_map h.pointers_nodup hm' hm ht]

/-- The write section of `AddThread` finds the pointer, has no ID for it, or
appends a record with the next core. -/
inductive Insertion (r : Registry) (n : Nat) (t : ThreadPtr) (assigned : Bool) (requested : UInt8) :
    Except RegistrationError (Registry × ThreadRecord × Bool) → Prop
  | existing (record : ThreadRecord) : r.findThread t = some record →
      Insertion r n t assigned requested (.ok (r, record, false))
  | refused (e : RegistrationError) : r.findThread t = none → r.recordID assigned requested = .error e →
      Insertion r n t assigned requested (.error e)
  | added (id : UInt8) : r.findThread t = none → r.recordID assigned requested = .ok id →
      Insertion r n t assigned requested (.ok (⟨r.threads ++ [⟨id, t, r.nextCoreID % n⟩], (r.nextCoreID % n + 1) % n⟩,
        ⟨id, t, r.nextCoreID % n⟩, true))

theorem insertion (r : Registry) (n : Nat) (t : ThreadPtr) (assigned : Bool) (requested : UInt8) :
    Insertion r n t assigned requested (r.insert n t assigned requested) := by
  unfold insert
  split
  · rename_i hf; exact .existing _ hf
  · rename_i hf
    split
    · rename_i he; exact .refused _ hf he
    · rename_i he; exact .added _ hf he

theorem recordID_free {assigned : Bool} {requested : UInt8} (h : r.recordID assigned requested = .ok id) :
    r.idInUse id = false := by
  unfold recordID at h
  split at h
  · split at h <;> cases h
    rename_i hid
    exact (leastFree_of_some hid).free
  · split at h <;> cases h
    rename_i hid
    exact Bool.eq_false_iff.2 hid

theorem Valid.insert {assigned fresh : Bool} {requested : UInt8} (h : r.Valid n) (ht : t ≠ nullptr)
    (hi : r.insert n t assigned requested = .ok (r', record, fresh)) : r'.Valid n := by
  have hwf := h.wellFormed.insert ht hi
  have hcase := insertion r n t assigned requested
  rw [hi] at hcase
  have hn : 0 < n := Nat.lt_of_le_of_lt (Nat.zero_le _) h.next
  cases hcase with
  | existing => exact h
  | added id hf hid =>
    refine ⟨?_, hwf, fun record hm => ?_, Nat.mod_lt _ hn⟩
    · rw [List.map_append, List.nodup_append]
      refine ⟨h.ids, by simp, fun a ha b hb => ?_⟩
      have hb : b = id := by simpa using hb
      rintro rfl
      obtain ⟨record, hm, he⟩ := List.mem_map.1 ha
      have hused := idInUse_iff.2 ⟨record, hm, he.trans hb⟩
      rw [recordID_free hid] at hused
      cases hused
    · rcases List.mem_append.1 hm with hm | hm
      · exact h.cores record hm
      · rw [List.mem_singleton.1 hm]
        exact Nat.mod_lt _ hn

theorem removeOne_sublist (c : ClaimedCleanupRecord) : (r.removeOne c).1.threads.Sublist r.threads ∧
    (r.removeOne c).1.nextCoreID = r.nextCoreID := by
  unfold removeOne
  split
  · exact ⟨List.eraseP_sublist, rfl⟩
  · exact ⟨List.Sublist.refl _, rfl⟩

theorem removeClaimed_sublist (cs : List ClaimedCleanupRecord) :
    (r.removeClaimed cs).1.threads.Sublist r.threads ∧ (r.removeClaimed cs).1.nextCoreID = r.nextCoreID := by
  induction cs generalizing r with
  | nil => exact ⟨List.Sublist.refl _, rfl⟩
  | cons c cs ih =>
    obtain ⟨hs, hn⟩ := removeOne_sublist (r := r) c
    obtain ⟨hs', hn'⟩ := ih (r := (r.removeOne c).1)
    exact ⟨hs'.trans hs, hn'.trans hn⟩

/-! ## Removal -/

/-- The record that `RemoveThread` finds, and what it leaves. -/
def find (r : Registry) : RemoveBy → Option ThreadRecord
  | .thread t => r.findThread t
  | .id id => r.findID id

def remove (r : Registry) : RemoveBy → Registry
  | .thread t => r.removeThread t
  | .id id => r.removeID id

theorem eraseP_eq_erase {p : ThreadRecord → Bool} {l : List ThreadRecord} (h : l.find? p = some record) :
    l.eraseP p = l.erase record := by
  induction l with
  | nil => cases h
  | cons a l ih =>
    by_cases ha : p a = true
    · rw [List.find?_cons_of_pos ha] at h
      cases h
      rw [List.eraseP_cons_of_pos ha, List.erase_cons_head]
    · rw [List.find?_cons_of_neg ha] at h
      have hne : a ≠ record := by
        rintro rfl
        exact ha (List.find?_some h)
      rw [List.eraseP_cons_of_neg ha, List.erase_cons_tail (by simpa using hne), ih h]

theorem remove_of_find {key : RemoveBy} (h : r.find key = some record) :
    (r.remove key).threads = r.threads.erase record ∧ (r.remove key).nextCoreID = r.nextCoreID := by
  cases key with
  | thread t => exact ⟨eraseP_eq_erase h, rfl⟩
  | id id => exact ⟨eraseP_eq_erase h, rfl⟩

end Registry

/-! ## Steps of the manager -/

variable {m m' : Machine} {i : OpId} {n : Nat} {answer : Answer}

/-- A call of `AddThread`. -/
def Pc.adds : Pc → Option (ThreadPtr × Bool × AddPc)
  | .addThread t assigned pc => some (t, assigned, pc)
  | _ => none

/-- The threads an operation removes when it steps. -/
def Pc.removes (r : Registry) : Pc → Option (List ThreadPtr)
  | .removeThread key => (r.find key).map fun record => [record.thread]
  | .cleanUp _ (.removeClaimed claimed _) => some (doomed (r.removeClaimed claimed).2)
  | _ => none

/-- What one step of operation `i` does to the registry and to its own call of
`AddThread`. -/
inductive RegistryStep (n : Nat) (m : Machine) (i : OpId) (answer : Answer) : Machine → Prop
  | refusedNull (t : ThreadPtr) (assigned : Bool) : m.ops i = .addThread t assigned .lookUp → t = nullptr →
      RegistryStep n m i answer (m.goto i (.addThread t assigned (.notifyFailed .invalidRegistration)))
  | found (t : ThreadPtr) (assigned : Bool) (pc : AddPc) (record : ThreadRecord) :
      m.ops i = .addThread t assigned pc → m.registry.findThread t = some record →
      (pc = .lookUp ∨ ∃ requested, pc = .insert requested) →
      RegistryStep n m i answer (m.goto i (.returned (.core record.coreID record.id)))
  | lookedUp (t : ThreadPtr) (assigned : Bool) (pc : AddPc) : m.ops i = .addThread t assigned .lookUp → t ≠ nullptr →
      m.registry.findThread t = none → pc = (if assigned then .insert 0 else .getThreadID) →
      RegistryStep n m i answer (m.goto i (.addThread t assigned pc))
  | gotThreadID (t : ThreadPtr) (assigned : Bool) (id : UInt8) : m.ops i = .addThread t assigned .getThreadID →
      RegistryStep n m i answer (m.goto i (.addThread t assigned (.insert id)))
  | threw (t : ThreadPtr) (assigned : Bool) (pc : AddPc) : m.ops i = .addThread t assigned pc → answer = .throws →
      (pc = .getThreadID ∨ ∃ requested registry record, pc = .insert requested ∧
        m.registry.insert n t assigned requested = .ok (registry, record, true)) →
      RegistryStep n m i answer (m.goto i (.addThread t assigned (.notifyFailed .failed)))
  | refused (t : ThreadPtr) (assigned : Bool) (requested : UInt8) (e : RegistrationError) :
      m.ops i = .addThread t assigned (.insert requested) → m.registry.insert n t assigned requested = .error e →
      RegistryStep n m i answer (m.goto i (.addThread t assigned (.notifyFailed e)))
  | inserted (t : ThreadPtr) (assigned : Bool) (requested : UInt8) (registry : Registry) (record : ThreadRecord) :
      m.ops i = .addThread t assigned (.insert requested) → answer ≠ .throws →
      m.registry.insert n t assigned requested = .ok (registry, record, true) →
      RegistryStep n m i answer
        ({ m with registry := registry }.goto i (.addThread t assigned (.notifyRegistered record)))
  | notified (t : ThreadPtr) (assigned : Bool) (record : ThreadRecord) :
      m.ops i = .addThread t assigned (.notifyRegistered record) → answer ≠ .throws →
      RegistryStep n m i answer
        ((m.notify (.threadRegistered record)).goto i (.returned (.core record.coreID record.id)))
  | notificationThrew (t : ThreadPtr) (assigned : Bool) (record : ThreadRecord) :
      m.ops i = .addThread t assigned (.notifyRegistered record) → answer = .throws →
      RegistryStep n m i answer
        ((m.notify (.threadRegistered record)).goto i (.addThread t assigned (.notifyFailed .failed)))
  | failed (t : ThreadPtr) (assigned : Bool) (e : RegistrationError) :
      m.ops i = .addThread t assigned (.notifyFailed e) →
      RegistryStep n m i answer ((m.notify (.threadRegistrationFailed t e)).goto i (.returned .thrown))
  | removed (key : RemoveBy) (record : ThreadRecord) : m.ops i = .removeThread key →
      m.registry.find key = some record →
      RegistryStep n m i answer ({ m with registry := m.registry.remove key }.goto i (.notifyRemoved record))
  | passRemoved (caller : Caller) (claimed : List ClaimedCleanupRecord) (r : CleanupResult) (pc : Pc)
      (condemned : List ThreadPtr) : m.ops i = .cleanUp caller (.removeClaimed claimed r) → pc.adds = none →
      RegistryStep n m i answer
        ({ m with registry := (m.registry.removeClaimed claimed).1, condemned := condemned }.goto i pc)
  | other (m' : Machine) (pc : Pc) : (m.ops i).adds = none → (m.ops i).removes m.registry = none → pc.adds = none →
      m'.registry = m.registry → m'.ops = m.ops → RegistryStep n m i answer (m'.goto i pc)

theorem registryStep_stepAddThread {t : ThreadPtr} {assigned : Bool} {pc : AddPc}
    (hpc : m.ops i = .addThread t assigned pc) (h : stepAddThread n m i t assigned pc answer = some m') :
    RegistryStep n m i answer m' := by
  unfold stepAddThread at h
  cases pc with
  | lookUp =>
    dsimp only at h
    split at h
    · cases h; exact .refusedNull t assigned hpc ‹_›
    · split at h <;> cases h
      · exact .found t assigned _ _ hpc ‹_› (.inl rfl)
      · exact .lookedUp t assigned _ hpc ‹_› ‹_› rfl
  | getThreadID =>
    dsimp only at h
    split at h <;> cases h
    · exact .gotThreadID t assigned _ hpc
    · exact .threw t assigned _ hpc rfl (.inl rfl)
  | insert requested =>
    have hcase := Registry.insertion m.registry n t assigned requested
    dsimp only at h
    split at h
    · rename_i registry record fresh hins
      rw [hins] at hcase
      split at h
      · rename_i hfresh
        rw [hfresh] at hins
        split at h <;> cases h
        · exact .threw t assigned _ hpc ‹_› (.inr ⟨_, _, _, rfl, hins⟩)
        · exact .inserted t assigned requested registry record hpc ‹_› hins
      · rename_i hfresh
        cases h
        cases hcase with
        | existing record hf => exact .found t assigned _ record hpc hf (.inr ⟨_, rfl⟩)
        | added => exact absurd rfl hfresh
    · cases h; exact .refused t assigned requested _ hpc ‹_›
  | notifyRegistered record =>
    dsimp only at h
    split at h <;> cases h
    · exact .notificationThrew t assigned record hpc ‹_›
    · exact .notified t assigned record hpc ‹_›
  | notifyFailed e => cases h; exact .failed t assigned e hpc

theorem registryStep_stepRemoveThread {key : RemoveBy} (hpc : m.ops i = .removeThread key) :
    RegistryStep n m i answer (stepRemoveThread m i key) := by
  have hnone : ∀ pc : Pc, m.registry.find key = none → pc.adds = none → RegistryStep n m i answer (m.goto i pc) :=
    fun pc hf hadds => .other m pc (by rw [hpc]; rfl) (by simp [hpc, Pc.removes, hf]) hadds rfl rfl
  cases key with
  | thread t =>
    simp only [stepRemoveThread]
    split
    · exact hnone _ ‹_› rfl
    · exact .removed _ _ hpc ‹_›
  | id id =>
    simp only [stepRemoveThread]
    split
    · exact hnone _ ‹_› rfl
    · exact .removed _ _ hpc ‹_›

theorem registryStep_stepIteration {kind : IterationKind} {pc : IterationPc} (hpc : m.ops i = .iteration kind pc)
    (h : stepIteration m i kind pc answer = some m') : RegistryStep n m i answer m' := by
  have hother : ∀ (m₁ : Machine) (pc : Pc), pc.adds = none → m₁.registry = m.registry → m₁.ops = m.ops →
      RegistryStep n m i answer (m₁.goto i pc) :=
    fun m₁ pc => .other m₁ pc (by rw [hpc]; rfl) (by rw [hpc]; rfl)
  unfold stepIteration at h
  split at h
  · split at h <;> cases h
    exact hother _ _ rfl rfl rfl
  · cases h; exact hother _ _ rfl rfl rfl
  · cases h; exact hother _ _ rfl rfl rfl
  · split at h <;> cases h <;> exact hother _ _ rfl rfl rfl
  · cases h; exact hother _ _ rfl rfl rfl
  · cases h; exact hother _ _ rfl rfl rfl
  · split at h <;> cases h
    simp only [endIteration]
    split <;> exact hother _ _ rfl rfl rfl
  · cases h

theorem registryStep_stepCleanUp {caller : Caller} {pc : PassPc} (hpc : m.ops i = .cleanUp caller pc)
    (h : stepCleanUp m i caller pc answer = some m') : RegistryStep n m i answer m' := by
  have hother : ∀ (m₁ : Machine) (pc' : Pc), (Pc.cleanUp caller pc).removes m.registry = none → pc'.adds = none →
      m₁.registry = m.registry → m₁.ops = m.ops → RegistryStep n m i answer (m₁.goto i pc') :=
    fun m₁ pc' hrem => .other m₁ pc' (by rw [hpc]; rfl) (by rwa [hpc])
  unfold stepCleanUp at h
  split at h
  case h_15 => cases h; exact .passRemoved caller _ _ _ _ hpc rfl
  case h_1 =>
    split at h
    · dsimp only at h
      split at h <;> cases h <;> exact hother _ _ rfl rfl rfl rfl
    · cases h
  case h_10 =>
    split at h
    · cases h; exact hother _ _ rfl rfl rfl rfl
    · split at h <;> cases h <;> exact hother _ _ rfl rfl rfl rfl
  case h_11 => split at h <;> cases h <;> exact hother _ _ rfl rfl rfl rfl
  case h_18 =>
    split at h
    · split at h <;> cases h <;> exact hother _ _ rfl rfl rfl rfl
    · cases h; exact hother _ _ rfl rfl rfl rfl
  all_goals
    cases h
    try exact hother _ _ rfl rfl rfl rfl

/-- Every step of an operation. -/
theorem registryStep_step (h : step n m (.step i answer) = some m') : RegistryStep n m i answer m' := by
  simp only [step, stepOp] at h
  split at h
  · cases h
  · cases h
  · rename_i hpc; exact registryStep_stepAddThread hpc h
  · rename_i hpc
    split at h <;> cases h
    exact registryStep_stepRemoveThread hpc
  · rename_i hpc
    split at h <;> cases h <;> exact .other _ _ (by rw [hpc]; rfl) (by rw [hpc]; rfl) rfl rfl rfl
  · rename_i hpc; exact registryStep_stepIteration hpc h
  · rename_i hpc; exact registryStep_stepCleanUp hpc h

/-! ## Runs -/

/-- A manager from its construction on. -/
def fresh (n : Nat) : System Machine Action where
  init m := m = .start .empty
  step := step n

/-- `AddThread` is past its check of the pointer. -/
def Pc.NotNull : Pc → Prop
  | .addThread t _ .getThreadID | .addThread t _ (.insert _) => t ≠ nullptr
  | _ => True

structure RegistryInv (n : Nat) (m : Machine) : Prop where
  valid : m.registry.Valid n
  notNull : ∀ i, (m.ops i).NotNull

theorem Pc.notNull_of_adds {pc : Pc} (h : pc.adds = none) : pc.NotNull := by
  cases pc with
  | addThread => cases h
  | _ => trivial

/-- What insertions and removals keep holds of the registry after a step. -/
theorem RegistryStep.keeps {P : Registry → Prop}
    (hins : ∀ r t assigned requested r' record fresh, P r → t ≠ nullptr →
      r.insert n t assigned requested = .ok (r', record, fresh) → P r')
    (hsub : ∀ r r' : Registry, r'.threads.Sublist r.threads → r'.nextCoreID = r.nextCoreID → P r → P r')
    (hP : P m.registry) (hn : ∀ i, (m.ops i).NotNull) (hs : RegistryStep n m i answer m') :
    P m'.registry ∧ ∀ i, (m'.ops i).NotNull := by
  have hgoto : ∀ {m₁ : Machine} {pc : Pc}, P m₁.registry → m₁.ops = m.ops → pc.NotNull →
      P (m₁.goto i pc).registry ∧ ∀ j, ((m₁.goto i pc).ops j).NotNull := by
    intro m₁ pc hr ho hpc
    refine ⟨hr, fun j => ?_⟩
    simp only [Machine.goto, Function.update_apply, ho]
    split
    · exact hpc
    · exact hn j
  have hi := hn i
  cases hs with
  | lookedUp t assigned pc hpc ht _ he =>
    refine hgoto hP rfl ?_
    rw [he]
    split <;> exact ht
  | gotThreadID t assigned id hpc =>
    rw [hpc] at hi
    exact hgoto hP rfl hi
  | inserted t assigned requested registry record hpc _ he =>
    rw [hpc] at hi
    exact hgoto (hins _ _ _ _ _ _ _ hP hi he) rfl trivial
  | removed key record hpc hf =>
    obtain ⟨hthreads, hnext⟩ := Registry.remove_of_find hf
    refine hgoto (hsub _ _ ?_ hnext hP) rfl trivial
    rw [hthreads]
    exact List.erase_sublist
  | passRemoved caller claimed r pc condemned hpc hadds =>
    obtain ⟨hthreads, hnext⟩ := Registry.removeClaimed_sublist (r := m.registry) claimed
    exact hgoto (hsub _ _ hthreads hnext hP) rfl (Pc.notNull_of_adds hadds)
  | other m₁ pc _ _ hadds hr ho => exact hgoto (hr ▸ hP) ho (Pc.notNull_of_adds hadds)
  | refusedNull | found | threw | refused | notified | notificationThrew | failed =>
    exact hgoto hP rfl trivial

theorem RegistryInv.registryStep (h : RegistryInv n m) (hs : RegistryStep n m i answer m') : RegistryInv n m' := by
  have hkeeps := hs.keeps (P := Registry.Valid n) (fun _ _ _ _ _ _ _ hr ht he => hr.insert ht he)
    (fun _ _ hsub hn hr => hr.sublist hsub hn) h.valid h.notNull
  exact ⟨hkeeps.1, hkeeps.2⟩

/-- A call starts with no pointer to check. -/
theorem notNull_call {request : Request} (h : ∀ j, (m.ops j).NotNull) :
    ∀ j, ((m.goto i request.entry).ops j).NotNull := by
  intro j
  simp only [Machine.goto, Function.update_apply]
  split
  · cases request <;> trivial
  · exact h j

theorem step_call {request : Request} (h : step n m (.call i request) = some m') :
    m.ops i = .idle ∧ m' = m.goto i request.entry := by
  simp only [step] at h
  split at h <;> cases h
  exact ⟨‹_›, rfl⟩

theorem RegistryInv.step {a : Action} (h : RegistryInv n m) (hs : step n m a = some m') : RegistryInv n m' := by
  cases a with
  | step i answer => exact h.registryStep (registryStep_step hs)
  | call i request =>
    obtain ⟨-, rfl⟩ := step_call hs
    exact ⟨h.valid, notNull_call h.notNull⟩

/-- Registered pointers are distinct in every run from any such registry. -/
theorem wellFormed_reachable (h : (system n).Reachable m) : m.registry.WellFormed := by
  have hboth : m.registry.WellFormed ∧ ∀ i, (m.ops i).NotNull := by
    refine h.invariant (I := fun m => m.registry.WellFormed ∧ ∀ i, (m.ops i).NotNull) (fun m hm => ?_)
      fun m a m' ⟨hr, hn⟩ _ hs => ?_
    · obtain ⟨registry, hr, rfl⟩ := hm
      exact ⟨hr, fun _ => trivial⟩
    · cases a with
      | call i request =>
        obtain ⟨-, rfl⟩ := step_call (n := n) hs
        exact ⟨hr, notNull_call hn⟩
      | step i answer =>
        exact (registryStep_step (n := n) hs).keeps (P := Registry.WellFormed)
          (fun _ _ _ _ _ _ _ hr ht he => hr.insert ht he) (fun _ _ hsub _ hr => hr.sublist (hsub.map _)) hr hn
  exact hboth.1

theorem registryInv_reachable (hn : 0 < n) (h : (fresh n).Reachable m) : RegistryInv n m := by
  refine h.invariant (I := RegistryInv n) (fun m hm => ?_) fun m a m' hi _ hs => hi.step hs
  obtain rfl := hm
  exact ⟨Registry.valid_empty hn, fun _ => trivial⟩

/-- A step appends a record, or removes records. -/
theorem RegistryStep.threads (h : RegistryStep n m i answer m') :
    m'.registry.threads.Sublist m.registry.threads ∨
      ∃ record, m'.registry.threads = m.registry.threads ++ [record] := by
  cases h with
  | inserted t assigned requested registry record _ _ hins =>
    have hcase := Registry.insertion m.registry n t assigned requested
    rw [hins] at hcase
    cases hcase with
    | added id => exact .inr ⟨_, rfl⟩
  | removed key record _ hf =>
    left
    show (m.registry.remove key).threads.Sublist m.registry.threads
    rw [(Registry.remove_of_find hf).1]
    exact List.erase_sublist
  | passRemoved caller claimed => exact .inl (Registry.removeClaimed_sublist claimed).1
  | other m₁ pc _ _ _ hr =>
    left
    show m₁.registry.threads.Sublist m.registry.threads
    rw [hr]
  | refusedNull | found | lookedUp | gotThreadID | threw | refused | notified | notificationThrew | failed =>
    exact .inl (List.Sublist.refl _)

/-- The record of a thread that stays registered does not change. -/
theorem RegistryStep.record_stays {record : ThreadRecord} (h : RegistryStep n m i answer m') (hr : m.registry.Valid n)
    (hm : record ∈ m.registry.threads) (hstay : record.thread ∈ m'.registry.pointers) :
    record ∈ m'.registry.threads := by
  rcases h.threads with hsub | ⟨added, he⟩
  · obtain ⟨record', hm', ht⟩ := List.mem_map.1 hstay
    rwa [List.inj_on_of_nodup_map hr.wellFormed.pointers_nodup hm (hsub.subset hm') ht.symm]
  · rw [he]
    exact List.mem_append_left _ hm

/-- `AddThread` with an assigned ID, at its write section: it throws
`ThreadLimitExceededException` when the pointer is new and no ID is free, and
otherwise registers a new pointer under the least free ID. -/
structure AssignsIDs (n : Nat) (m : Machine) : Prop where
  limit : ∀ i t pc answer m', m.ops i = .addThread t true pc → step n m (.step i answer) = some m' →
    (m'.ops i = .addThread t true (.notifyFailed .limitExceeded) ↔
      (∃ requested, pc = .insert requested) ∧ t ∉ m.registry.pointers ∧ ∀ id, m.registry.idInUse id = true)
  assigned : ∀ i t requested answer m', m.ops i = .addThread t true (.insert requested) → answer ≠ .throws →
    step n m (.step i answer) = some m' → t ∉ m.registry.pointers → (∃ id, m.registry.idInUse id = false) →
    ∃ id, m.registry.LeastFree id ∧ m'.registry.threads = m.registry.threads ++ [⟨id, t, m.registry.nextCoreID % n⟩] ∧
      m'.ops i = .addThread t true (.notifyRegistered ⟨id, t, m.registry.nextCoreID % n⟩)

theorem Registry.recordID_assigned {r : Registry} {requested : UInt8} {e : RegistrationError} :
    (r.recordID true requested = .error e ↔ e = .limitExceeded ∧ ∀ id, r.idInUse id = true) ∧
      ∀ id, r.recordID true requested = .ok id → r.LeastFree id := by
  simp only [recordID, if_true]
  cases hid : r.leastFreeID with
  | none =>
    have hall := leastFreeID_eq_none.1 hid
    exact ⟨⟨fun h => by cases h; exact ⟨rfl, hall⟩, fun ⟨he, _⟩ => he ▸ rfl⟩, nofun⟩
  | some id =>
    have hleast := leastFree_of_some hid
    refine ⟨⟨nofun, fun ⟨_, hall⟩ => ?_⟩, fun id' h => by cases h; exact hleast⟩
    have := hall id
    rw [hleast.free] at this
    cases this

/-- A write section that finds no ID for a new pointer. -/
theorem Registry.insert_refused {r : Registry} {t : ThreadPtr} {assigned : Bool} {requested : UInt8}
    {e : RegistrationError} (hnew : r.findThread t = none) (he : r.recordID assigned requested = .error e) :
    r.insert n t assigned requested = .error e := by
  simp only [insert, hnew, he]

@[simp] theorem Machine.goto_ops (m : Machine) (i : OpId) (pc : Pc) : (m.goto i pc).ops i = pc := by
  simp [Machine.goto]

/-- A write section that finds no ID throws. -/
theorem refused_step {t : ThreadPtr} {assigned : Bool} {requested : UInt8} {e : RegistrationError}
    (hpc : m.ops i = .addThread t assigned (.insert requested)) (hnew : t ∉ m.registry.pointers)
    (he : m.registry.recordID assigned requested = .error e) (h : step n m (.step i answer) = some m') :
    m'.ops i = .addThread t assigned (.notifyFailed e) := by
  have hins := Registry.insert_refused (n := n) (Registry.findThread_eq_none.2 hnew) he
  simp only [step, stepOp, hpc, stepAddThread, hins, Option.some.injEq] at h
  rw [← h, Machine.goto_ops]

theorem assignsIDs (n : Nat) (m : Machine) : AssignsIDs n m where
  limit i t pc answer m' hpc hs := by
    constructor
    · intro hlimit
      generalize hreg : registryStep_step hs = hstep
      clear hreg
      cases hstep with
      -- Only a refused insertion reports the limit.
      | refused t' assigned requested e hpc' hins =>
        rw [Machine.goto_ops] at hlimit
        rw [hpc'] at hpc
        cases hlimit
        cases hpc
        have hcase := Registry.insertion m.registry n t true requested
        rw [hins] at hcase
        cases hcase with
        | refused _ hf he =>
          exact ⟨⟨_, rfl⟩, Registry.findThread_eq_none.1 hf, (Registry.recordID_assigned.1.1 he).2⟩
      | refusedNull | found | gotThreadID | threw | inserted | notified | notificationThrew | failed | removed =>
        rw [Machine.goto_ops] at hlimit
        cases hlimit
      | lookedUp t' assigned pc' hpc' ht _ he =>
        rw [Machine.goto_ops] at hlimit
        cases hlimit
        cases he
      | passRemoved caller claimed r pc' condemned hpc' hadds =>
        rw [hpc] at hpc'
        cases hpc'
      | other m₁ pc' hadds =>
        rw [hpc] at hadds
        cases hadds
    · rintro ⟨⟨requested, rfl⟩, hnew, hall⟩
      exact refused_step hpc hnew (Registry.recordID_assigned.1.2 ⟨rfl, hall⟩) hs
  assigned i t requested answer m' hpc hans hs hnew hfree := by
    obtain ⟨free, hfree⟩ := hfree
    cases hid : m.registry.recordID true requested with
    | error e =>
      have := (Registry.recordID_assigned.1.1 hid).2 free
      rw [hfree] at this
      cases this
    | ok id =>
      have hins : m.registry.insert n t true requested =
          .ok (⟨m.registry.threads ++ [⟨id, t, m.registry.nextCoreID % n⟩], (m.registry.nextCoreID % n + 1) % n⟩,
            ⟨id, t, m.registry.nextCoreID % n⟩, true) := by
        simp [Registry.insert, Registry.findThread_eq_none.2 hnew, hid]
      simp only [step, stepOp, hpc, stepAddThread, hins, if_true, if_neg hans, Option.some.injEq] at hs
      rw [← hs]
      exact ⟨id, (Registry.recordID_assigned (e := .failed)).2 id hid, rfl, by rw [Machine.goto_ops]⟩

/-- The representation of the registry over every run: it stays valid, the
record of a thread that stays registered does not change, and IDs are assigned
as documented. -/
theorem registry_contract (n : Nat) (hn : 0 < n) (m : Machine) (h : (fresh n).Reachable m) :
    m.registry.Valid n ∧ m.registry.threads.length ≤ 256 ∧
    (∀ record ∈ m.registry.threads, ∀ m',
      (fresh n).Leads (fun m _ => record.thread ∈ m.registry.pointers) m m' → record.thread ∈ m'.registry.pointers →
      record ∈ m'.registry.threads) ∧
    AssignsIDs n m := by
  have hinv := registryInv_reachable hn h
  refine ⟨hinv.valid, hinv.valid.length_le, fun record hm m' hl hstay => ?_, assignsIDs n m⟩
  refine (hl.invariant (I := fun m => RegistryInv n m ∧ (record.thread ∈ m.registry.pointers →
    record ∈ m.registry.threads)) ⟨hinv, fun _ => hm⟩ ?_).2 hstay
  rintro m a m' ⟨hi, hrec⟩ hreg hs
  refine ⟨hi.step hs, fun hstay => ?_⟩
  cases a with
  | call i request =>
    obtain ⟨-, rfl⟩ := step_call (n := n) hs
    exact hrec hreg
  | step i answer => exact (registryStep_step hs).record_stays hi.valid (hrec hreg) hstay

/-- Operation `i` registers a thread, which is assigned an ID. -/
def registers (i : OpId) (t : ThreadPtr) : List Action :=
  .call i (.addThread t true) :: List.replicate 3 (.step i .returns)

/-- Two threads on two processors. -/
theorem two_registered : ∃ m, (fresh 2).Reachable m ∧ m.registry.threads = [⟨1, 10, 0⟩, ⟨2, 20, 1⟩] ∧
    m.registry.Valid 2 := by
  have hrun : ((fresh 2).replay (.start .empty) (registers 0 10 ++ registers 1 20)).map
      (fun m => m.registry.threads) = some [⟨1, 10, 0⟩, ⟨2, 20, 1⟩] := by
    decide +kernel
  obtain ⟨m, hs, hthreads⟩ := Option.map_eq_some_iff.1 hrun
  have hr : (fresh 2).Reachable m := Transition.System.reachable_of_replay rfl hs
  exact ⟨m, hr, hthreads, (registry_contract 2 (by decide) m hr).1⟩

end ESPressio.Manager
