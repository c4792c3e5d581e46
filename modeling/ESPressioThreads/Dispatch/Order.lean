import ESPressioThreads.Dispatch.Consistency
/-!
# The order in which a handler begins

A general handler is called for every transition. It begins in the order in
which the transitions are stored, as long as none is stored by a handler that
comes before it. Nothing comes before `OnStateChange`.
-/

namespace ESPressio.Dispatch

open Transition Chain ESPressio.Thread
open ESPressio.Lifecycle (TaskId hasThreadEvent)

def Event.startOf (c : Handler) : Event → Option Nat
  | .started number handler _ _ _ => if handler = c then some number else none
  | _ => none

/-- The transitions for which a handler has begun. -/
def starts (c : Handler) (l : List Event) : List Nat := l.filterMap (Event.startOf c)

@[simp] theorem starts_append (c : Handler) (l l' : List Event) : starts c (l ++ l') = starts c l ++ starts c l' :=
  List.filterMap_append

/-- The handler is called once for each transition, whatever its state. -/
structure Handlers.General (h : Handlers) (c : Handler) : Prop where
  general : c.stateSpecific = false
  once : ∀ newState, (h.calls newState).count c = 1

/-- The top one of `n` calls of `p` stores no transition while one below it has
yet to call `c`. -/
def StoresAbove (c : Handler) (m : Machine) (p : TaskId) : Nat → Prop
  | 0 => True
  | k + 1 => (m.frames (p, k)).pc = .check → (m.frames (p, k)).stores m.threadState →
      ∀ j, j < k → c ∉ (m.frames (p, j)).pc.pending

instance (c : Handler) (m : Machine) (p : TaskId) : ∀ n, Decidable (StoresAbove c m p n)
  | 0 => isTrue trivial
  | k + 1 => inferInstanceAs (Decidable (_ → _ → ∀ j, j < k → _))

/-- A transition is stored after `c` was called for those whose handlers store it. -/
def StoresAfter (c : Handler) (m : Machine) : Action → Prop
  | .step p _ => StoresAbove c m p (m.height p)
  | _ => True

instance (c : Handler) (m : Machine) : ∀ a, Decidable (StoresAfter c m a)
  | .step p _ => inferInstanceAs (Decidable (StoresAbove c m p (m.height p)))
  | .call _ _ _ | .initializing _ _ => isTrue trivial

variable {h : Handlers} {m m' m₁ : Machine} {p : TaskId} {k n : Nat} {pc : Pc} {l : List Event} {e : Option Event}
  {a : Action} {x : Machine × List Event} {c : Handler}

/-- All transitions have called `c`, but for the last one, which may be about to. -/
structure InOrder (c : Handler) (m : Machine) (l : List Event) : Prop where
  waiting : ∀ a d, (m.frames a).pc.delivery = some d → c ∈ (m.frames a).pc.pending →
    d.number + 1 = m.transitions ∧ starts c l = List.range d.number
  called : (∀ a, c ∉ (m.frames a).pc.pending) → starts c l = List.range m.transitions

theorem delivery_of_pending (hc : c ∈ pc.pending) : ∃ d, pc.delivery = some d := by
  cases pc with
  | next d | call handler d | running handler d => exact ⟨d, rfl⟩
  | _ => cases hc

/-- A step that neither stores a transition nor begins `c`. -/
theorem InOrder.keep (hi : InOrder c m l) (b : TaskId × Nat) (ht : m'.transitions = m.transitions)
    (hf : ∀ a, a ≠ b → m'.frames a = m.frames a)
    (hb : c ∈ (m'.frames b).pc.pending ↔ c ∈ (m.frames b).pc.pending)
    (hd : ∀ d', (m'.frames b).pc.delivery = some d' → ∃ d, (m.frames b).pc.delivery = some d ∧ d'.number = d.number)
    (he : starts c e.toList = []) : InOrder c m' (l ++ e.toList) := by
  have hpending : ∀ a, c ∈ (m'.frames a).pc.pending ↔ c ∈ (m.frames a).pc.pending := by
    intro a
    by_cases hab : a = b
    · subst hab
      exact hb
    · rw [hf a hab]
  refine ⟨fun a d' hd' hp => ?_, fun hno => ?_⟩
  · rw [ht, starts_append, he, List.append_nil]
    have hp := (hpending a).1 hp
    by_cases hab : a = b
    · subst hab
      obtain ⟨d, hda, hnum⟩ := hd d' hd'
      rw [hnum]
      exact hi.waiting a d hda hp
    · rw [hf a hab] at hd'
      exact hi.waiting a d' hd' hp
  · rw [ht, starts_append, he, List.append_nil]
    exact hi.called fun a => (hpending a).not.1 (hno a)

theorem InOrder.store (hi : InOrder c m l) (hg : h.General c) (b : TaskId × Nat)
    (hno : ∀ a, c ∉ (m.frames a).pc.pending) :
    InOrder c ({ m with threadState := (m.frames b).newState, transitions := m.transitions + 1 }.setPc b
      (.next ⟨m.transitions, m.threadState, h.calls (m.frames b).newState, false⟩))
      (l ++ [.stored m.threadState (m.frames b).newState]) := by
  have hstarts : starts c (l ++ [.stored m.threadState (m.frames b).newState]) = starts c l := by
    simp [starts, Event.startOf]
  refine ⟨fun a d hd hp => ?_, fun hnone => ?_⟩
  · rw [Machine.setPc_frames] at hd hp
    split at hd <;> rename_i hab
    · cases hd
      exact ⟨rfl, hstarts.trans (hi.called hno)⟩
    · rw [if_neg hab] at hp
      exact absurd hp (hno a)
  · have hcalls : c ∈ h.calls (m.frames b).newState :=
      List.count_pos_iff.1 (by rw [hg.once]; exact Nat.one_pos)
    have hb := hnone b
    rw [Machine.setPc_frames, if_pos rfl] at hb
    exact absurd hcalls hb

/-- A call that is about to call `c` calls it once. -/
theorem rest_of_call (hg : h.General c) (hn : Numbered h m l) {b : TaskId × Nat} {d : Delivery}
    (hpc : (m.frames b).pc = .call c d) : c ∉ d.rest := by
  have hprogress := hn.progress b d (by rw [hpc]; rfl)
  have honce := hg.once (m.frames b).newState
  rw [hprogress, hpc, List.count_append, Pc.pending, List.count_cons_self] at honce
  intro hm
  have := List.count_pos_iff.2 hm
  omega

theorem InOrder.begin (hi : InOrder c m l) (hg : h.General c) (hn : Numbered h m l) {b : TaskId × Nat} {d : Delivery}
    (hpc : (m.frames b).pc = .call c d) (oldState newState current : ThreadState) :
    InOrder c (m.setPc b (.running c d)) (l ++ [.started d.number c oldState newState current]) := by
  have hb : (m.frames b).pc.delivery = some d := by rw [hpc]; rfl
  obtain ⟨hlast, hstarts⟩ := hi.waiting b d hb (by rw [hpc]; exact List.mem_cons_self)
  -- No other call waits for `c`: it would have the same number.
  have hnone : ∀ a, c ∉ ((m.setPc b (.running c d)).frames a).pc.pending := by
    intro a hp
    rw [Machine.setPc_frames] at hp
    split at hp <;> rename_i hab
    · exact rest_of_call hg hn hpc hp
    · obtain ⟨d', hd'⟩ := delivery_of_pending hp
      obtain ⟨hlast', -⟩ := hi.waiting a d' hd' hp
      exact hab (hn.unique a b d' d hd' hb (by omega))
  refine ⟨fun a _ _ hp => absurd hp (hnone a), fun _ => ?_⟩
  show starts c (l ++ [.started d.number c oldState newState current]) = List.range m.transitions
  rw [starts_append, hstarts, ← hlast, List.range_succ]
  simp [starts, Event.startOf]

theorem InOrder.step (hi : InOrder c m l) (hg : h.General c) (hs : Stacks m) (hn : Numbered h m l)
    (hafter : StoresAfter c m a) (hm : Moved h m a m' e) : InOrder c m' (l ++ e.toList) := by
  have hother : ∀ {m₁ : Machine} {b : TaskId × Nat} {pc : Pc}, m₁.frames = m.frames → ∀ c, c ≠ b →
      (m₁.setPc b pc).frames c = m.frames c := by
    intro m₁ b pc hf c hc
    rw [Machine.setPc_frames, if_neg hc, hf]
  cases hm with
  | call p expected newState =>
    have hidle := hs.above p (m.height p) (Nat.le_refl _)
    refine hi.keep (p, m.height p) rfl (fun c hc => by rw [Machine.push_frames, if_neg hc]) ?_ ?_ rfl
    · rw [Machine.push_frames, if_pos rfl, hidle]
      exact Iff.rfl
    · rw [Machine.push_frames, if_pos rfl]
      exact (by rintro _ ⟨⟩)
  | initializing =>
    rw [Option.toList_none, List.append_nil]
    exact ⟨hi.waiting, hi.called⟩
  | locked p k ok hk hpc =>
    refine hi.keep (p, k) rfl (hother rfl) ?_ ?_ rfl <;> rw [Machine.setPc_frames, if_pos rfl]
    · rw [hpc]
      exact Iff.rfl
    · exact (by rintro _ ⟨⟩)
  | stored p k ok hk hpc hstores =>
    refine hi.store hg (p, k) fun b hb => ?_
    simp only [StoresAfter, hk, StoresAbove] at hafter
    obtain ⟨d, hd⟩ := delivery_of_pending hb
    -- Only the calls below are inside the locked section.
    have hlocked : (m.frames b).pc.locked = true := by
      cases hbpc : (m.frames b).pc <;> rw [hbpc] at hd <;> first | rfl | cases hd
    have hown := hs.owner _ hlocked
    rw [hs.owner (p, k) (by rw [hpc]; rfl)] at hown
    obtain ⟨q, j⟩ := b
    cases hown
    have hj : j < m.height p := hs.lt_height (fun hi => by rw [hi] at hlocked; cases hlocked)
    have hne : j ≠ k := by
      rintro rfl
      rw [hpc] at hb
      cases hb
    exact hafter hpc hstores j (by omega) hb
  | superseded p k ok d handler rest hk hpc hrest hspec =>
    have hne : c ≠ handler := fun he => by rw [← he, hg.general] at hspec; cases hspec
    refine hi.keep (p, k) rfl (hother rfl) ?_ ?_ rfl <;> rw [Machine.setPc_frames, if_pos rfl]
    · rw [hpc]
      simp [Pc.pending, hrest, hne]
    · rintro _ ⟨⟩
      exact ⟨d, by rw [hpc]; rfl, rfl⟩
  | chosen p k ok d handler rest hk hpc hrest =>
    refine hi.keep (p, k) rfl (hother rfl) ?_ ?_ rfl <;> rw [Machine.setPc_frames, if_pos rfl]
    · rw [hpc]
      simp [Pc.pending, hrest]
    · rintro _ ⟨⟩
      exact ⟨d, by rw [hpc]; rfl, rfl⟩
  | started p k ok handler d hk hpc =>
    by_cases hc : handler = c
    · subst hc
      exact hi.begin hg hn hpc _ _ _
    · have hstarts : starts c (some (Event.started d.number handler d.oldState (m.frames (p, k)).newState
          m.threadState)).toList = [] := by
        simp [starts, Event.startOf, hc]
      refine hi.keep (p, k) rfl (hother rfl) ?_ ?_ hstarts <;> rw [Machine.setPc_frames, if_pos rfl]
      · rw [hpc]
        simp [Pc.pending, Ne.symm hc]
      · rintro _ ⟨⟩
        exact ⟨d, by rw [hpc]; rfl, rfl⟩
  | returned p k ok handler d failed hk hpc =>
    refine hi.keep (p, k) rfl (hother rfl) ?_ ?_ rfl <;> rw [Machine.setPc_frames, if_pos rfl]
    · rw [hpc]
      exact Iff.rfl
    · rintro _ ⟨⟩
      exact ⟨d, by rw [hpc]; rfl, rfl⟩
  | ending p k ok pc hk hpc hto =>
    have hoff : pc.delivery = none ∧ pc.pending = [] := by
      rcases hto with rfl | rfl | ⟨throws, rfl⟩ <;> exact ⟨rfl, rfl⟩
    have hwas : (m.frames (p, k)).pc.pending = [] := by
      rcases hpc with ⟨d, hpc, hrest⟩ | hpc | hpc | hpc <;> rw [hpc]
      · exact hrest
      · rfl
      · rfl
      · rfl
    refine hi.keep (p, k) rfl (hother rfl) ?_ ?_ rfl <;> rw [Machine.setPc_frames, if_pos rfl]
    · rw [hwas, hoff.2]
    · rw [hoff.1]
      exact (by rintro _ ⟨⟩)
  | unlocked p k ok throws hk hpc =>
    refine hi.keep (p, k) rfl (fun c hc => by rw [Machine.pop_frames, if_neg hc]) ?_ ?_ rfl <;>
      rw [Machine.pop_frames, if_pos rfl]
    · rw [hpc]
      exact Iff.rfl
    · exact (by rintro _ ⟨⟩)

/-! ## Runs -/

/-- What every run keeps. -/
structure Kept (h : Handlers) (m : Machine) (l : List Event) : Prop where
  stacked : Stacks m
  numbered : Numbered h m l
  observed : Observed m l

theorem numbered_start : Numbered h .start [] where
  count := rfl
  number _ _ hd := by cases hd
  unique _ _ _ _ hd := by cases hd
  progress _ _ hd := by cases hd
  finished _ _ _ hn := by cases hn
  unborn _ _ := rfl

theorem observed_start : Observed .start [] where
  path := rfl
  calling _ _ _ hpc := by cases hpc
  started _ _ _ _ _ hm := by cases hm
  superseded _ _ _ _ hm := by cases hm

theorem kept_reachable {C : Machine × List Event → Action → Prop} (hx : (system h).ReachableWhen C x) :
    Kept h x.1 x.2 := by
  refine hx.invariant (I := fun x => Kept h x.1 x.2) (fun x hx => ?_) fun x a y hi _ hs => ?_
  · obtain ⟨hm, hl⟩ := hx
    rw [hm, hl]
    exact ⟨stacks_start, numbered_start, observed_start⟩
  · obtain ⟨hst, hl⟩ := System.logged_step.1 hs
    have hm := step_moved hst
    rw [hl]
    exact ⟨hi.stacked.step hm, hi.numbered.step hi.stacked hm, hi.observed.step hi.stacked hi.numbered hm⟩

/-- In runs that store no transition before `c` is called for those below. -/
theorem inOrder_reachable (hg : h.General c) (hx : (system h).ReachableWhen (fun x a => StoresAfter c x.1 a) x) :
    InOrder c x.1 x.2 := by
  refine hx.invariant_with (I := fun x => InOrder c x.1 x.2) (fun x hx => kept_reachable hx) (fun x hx => ?_)
    fun x a y hk _ hi hc hs => ?_
  · obtain ⟨hm, hl⟩ := hx
    rw [hm, hl]
    exact ⟨nofun, fun _ => rfl⟩
  · obtain ⟨hst, hl⟩ := System.logged_step.1 hs
    rw [hl]
    exact hi.step hg hk.stacked hk.numbered hc (step_moved hst)

/-! ## The pairs a handler gets -/

def Event.startWith (c : Handler) : Event → Option (ThreadState × ThreadState)
  | .started _ handler oldState newState _ => if handler = c then some (oldState, newState) else none
  | _ => none

/-- The `(old, new)` pairs with which a handler has begun. -/
def begun (c : Handler) (l : List Event) : List (ThreadState × ThreadState) := l.filterMap (Event.startWith c)

theorem filterMap_getElem?_range {α : Type} (l : List α) (n : Nat) :
    (List.range n).filterMap (fun i => l[i]?) = l.take n := by
  induction n with
  | zero => simp
  | succ n ih =>
    rw [List.range_succ, List.filterMap_append, ih, List.take_add_one]
    cases hn : l[n]? <;> simp [hn]

/-- A handler gets the pair of its transition. -/
theorem begun_eq {ps : List (ThreadState × ThreadState)} (hl : ∀ n handler oldState newState current,
    .started n handler oldState newState current ∈ l → ps[n]? = some (oldState, newState)) :
    begun c l = (starts c l).filterMap fun n => ps[n]? := by
  induction l with
  | nil => rfl
  | cons e l ih =>
    have ih := ih fun n handler oldState newState current hm =>
      hl n handler oldState newState current (List.mem_cons_of_mem _ hm)
    simp only [begun, starts] at ih ⊢
    cases e with
    | started n handler oldState newState current =>
      have hpair := hl n handler oldState newState current List.mem_cons_self
      by_cases hc : handler = c
      · simp [Event.startWith, Event.startOf, hc, hpair, ih]
      · simp [Event.startWith, Event.startOf, hc, ih]
    | stored | superseded =>
      rw [List.filterMap_cons_none rfl, List.filterMap_cons_none rfl]
      exact ih

/-- A general handler has begun for all transitions, or for all but the last,
for which a call is about to call it. -/
theorem InOrder.begun (hi : InOrder c m l) (hk : Kept h m l) :
    begun c l = changes l ∨
      ∃ last a, changes l = ESPressio.Dispatch.begun c l ++ [last] ∧ c ∈ (m.frames a).pc.pending := by
  have hpairs := begun_eq (c := c) fun n handler oldState newState current hm =>
    (hk.observed.started n handler oldState newState current hm).1
  by_cases hwait : ∃ a, c ∈ (m.frames a).pc.pending
  · obtain ⟨a, ha⟩ := hwait
    obtain ⟨d, hd⟩ := delivery_of_pending ha
    obtain ⟨hlast, hstarts⟩ := hi.waiting a d hd ha
    right
    refine ⟨(d.oldState, (m.frames a).newState), a, ?_, ha⟩
    have hlen : (changes l).length = d.number + 1 := hk.numbered.count.symm.trans hlast.symm
    have htake := List.take_add_one (l := changes l) (i := d.number)
    rw [hk.numbered.number a d hd, List.take_of_length_le (Nat.le_of_eq hlen)] at htake
    rw [hpairs, hstarts, filterMap_getElem?_range]
    exact htake
  · left
    rw [hpairs, hi.called fun a ha => hwait ⟨a, ha⟩, filterMap_getElem?_range, hk.numbered.count, List.take_length]

/-! ## `OnStateChange` -/

/-- Nothing is called before `OnStateChange`. -/
theorem calls_tail {newState : ThreadState} {before rest : List Handler}
    (hcalls : h.calls newState = before ++ c :: rest) : .onStateChange ∉ rest := by
  have hothers : .onStateChange ∉
      (if hasThreadEvent newState && h.onThreadEvent newState then [Handler.onThreadEvent] else []) ++
        h.observers.flatMap fun o => [.onThreadStateChanged o, .onThreadState o] := by
    intro hm
    rcases List.mem_append.1 hm with hm | hm
    · split at hm
      · cases List.mem_singleton.1 hm
      · cases hm
    · simp at hm
  have hsub : rest.Sublist (h.calls newState).tail := by
    rw [hcalls]
    cases before with
    | nil => exact List.Sublist.refl _
    | cons b before => exact (List.sublist_cons_self _ _).trans (List.sublist_append_right _ _)
  intro hm
  have hm := hsub.subset hm
  unfold Handlers.calls at hm
  split at hm
  · exact hothers hm
  · exact hothers (List.mem_of_mem_tail hm)

theorem onStateChange_general (hset : h.onStateChange = true) : h.General .onStateChange where
  general := rfl
  once newState := by
    have hhead : h.calls newState = [] ++ Handler.onStateChange :: (h.calls newState).tail := by
      simp [Handlers.calls, hset]
    have htail := calls_tail hhead
    rw [hhead, List.nil_append, List.count_cons_self, List.count_eq_zero.2 htail]

/-- A call that is in a handler has called `OnStateChange`. -/
theorem running_called (hx : (system h).Reachable x) :
    ∀ a handler d, (x.1.frames a).pc = .running handler d → .onStateChange ∉ d.rest := by
  refine hx.invariant_with (I := fun x => ∀ a handler d, (x.1.frames a).pc = .running handler d →
    .onStateChange ∉ d.rest) (fun x hx => kept_reachable hx) (fun x hx => ?_) fun x a y hk _ hi _ hs => ?_
  · rw [hx.1]
    exact nofun
  · have hm := step_moved (System.logged_step.1 hs).1
    generalize event x.1 a = e at hm
    generalize y.1 = m' at hm
    intro b handler' d' hb
    cases hm with
    | started p k ok handler d hk' hpc =>
      rw [Machine.setPc_frames] at hb
      split at hb <;> rename_i hab
      · cases hb
        have hprogress := hk.numbered.progress (p, k) d' (by rw [hpc]; rfl)
        rw [hpc] at hprogress
        exact calls_tail hprogress
      · exact hi b handler' d' hb
    | call p expected newState =>
      rw [Machine.push_frames] at hb
      split at hb
      · cases hb
      · exact hi b handler' d' hb
    | unlocked p k =>
      rw [Machine.pop_frames] at hb
      split at hb
      · cases hb
      · exact hi b handler' d' hb
    | initializing => exact hi b handler' d' hb
    | ending p k ok pc hk' hpc hto =>
      rw [Machine.setPc_frames] at hb
      split at hb
      · rcases hto with rfl | rfl | ⟨throws, rfl⟩ <;> cases hb
      · exact hi b handler' d' hb
    | locked | stored | superseded | chosen | returned =>
      rw [Machine.setPc_frames] at hb
      split at hb
      · cases hb
      · exact hi b handler' d' hb

theorem storesAfter_onStateChange (hx : (system h).Reachable x) :
    (system h).ReachableWhen (fun x a => StoresAfter .onStateChange x.1 a) x := by
  refine hx.strengthen fun x a y hx _ _ => ?_
  have hk := kept_reachable hx
  cases a with
  | step p ok =>
    show StoresAbove .onStateChange x.1 p (x.1.height p)
    cases hk' : x.1.height p with
    | zero => trivial
    | succ k =>
      intro _ _ j hj hm
      have hin := hk.stacked.below p j (by omega)
      unfold Pc.inHandler at hin
      split at hin
      · rename_i handler d hpc
        rw [hpc] at hm
        exact running_called hx (p, j) handler d hpc hm
      · cases hin
  | call | initializing => trivial

/-- Every transition calls its handlers once, whatever they throw or call; only
handlers for a state that the thread has left are passed over. `OnStateChange`
begins in the order of the transitions. -/
structure Consistent (h : Handlers) (m : Machine) (l : List Event) : Prop where
  path : Path .uninitialized (changes l) m.threadState
  pairs : ∀ n handler oldState newState current, .started n handler oldState newState current ∈ l →
    (changes l)[n]? = some (oldState, newState)
  onStateChange : h.onStateChange = true → begun .onStateChange l = changes l ∨
    ∃ last a, changes l = begun .onStateChange l ++ [last] ∧ .onStateChange ∈ (m.frames a).pc.pending
  inState : ∀ n handler oldState newState current, .started n handler oldState newState current ∈ l →
    handler.stateSpecific = true → current = newState
  superseded : ∀ n handler newState current, .superseded n handler newState current ∈ l →
    handler.stateSpecific = true ∧ current ≠ newState
  calls : ∀ n oldState newState, (changes l)[n]? = some (oldState, newState) →
    handled n l <+: h.calls newState ∧ (¬ m.Delivers n → handled n l = h.calls newState)

theorem transitions_consistent (h : Handlers) (x : Machine × List Event) (hx : (system h).Reachable x) :
    Consistent h x.1 x.2 where
  path := (kept_reachable hx).observed.path
  pairs n handler oldState newState current hm :=
    ((kept_reachable hx).observed.started n handler oldState newState current hm).1
  onStateChange hset :=
    (inOrder_reachable (onStateChange_general hset) (storesAfter_onStateChange hx)).begun (kept_reachable hx)
  inState n handler oldState newState current hm :=
    ((kept_reachable hx).observed.started n handler oldState newState current hm).2
  superseded := (kept_reachable hx).observed.superseded
  calls n oldState newState hnth := by
    have hn := (kept_reachable hx).numbered
    refine ⟨?_, hn.finished n oldState newState hnth⟩
    by_cases hd : x.1.Delivers n
    · obtain ⟨a, d, hd, rfl⟩ := hd
      have hnumber := hn.number a d hd
      rw [hnth] at hnumber
      cases hnumber
      exact ⟨_, (hn.progress a d hd).symm⟩
    · simp [hn.finished n oldState newState hnth hd]

/-- All callbacks and one observer. -/
def oneObserver : Handlers := ⟨true, fun _ => true, [0]⟩

def steps (p : TaskId) (n : Nat) : List Action := List.replicate n (.step p true)

/-- `OnStateChange` starts the thread when it is initialized, and throws when it
runs. -/
def startedByCallback : List Action :=
  .call (.app 0) none .initialized :: steps (.app 0) 4 ++
    .call (.app 0) (some .initialized) .running :: .call (.app 1) (some .running) .paused :: steps (.app 0) 4 ++
    .step (.app 0) false :: steps (.app 0) 20

theorem startedByCallback_consistent : ∃ x, (system oneObserver).Reachable x ∧ Consistent oneObserver x.1 x.2 ∧
    changes x.2 = [(.uninitialized, .initialized), (.initialized, .running)] ∧
    handled 0 x.2 = oneObserver.calls .initialized ∧ x.1.height (.app 0) = 0 := by
  have hrun : ((system oneObserver).replay (.start, []) startedByCallback).map
      (fun x => (changes x.2, handled 0 x.2, x.1.height (.app 0))) =
      some ([(.uninitialized, .initialized), (.initialized, .running)], oneObserver.calls .initialized, 0) := by
    decide +kernel
  obtain ⟨x, hs, hp⟩ := Option.map_eq_some_iff.1 hrun
  have hr := System.reachable_of_replay (S := system oneObserver) ⟨rfl, rfl⟩ hs
  exact ⟨x, hr, transitions_consistent oneObserver x hr, congrArg Prod.fst hp, congrArg (fun q => q.2.1) hp,
    congrArg (fun q => q.2.2) hp⟩

end ESPressio.Dispatch
